import AxonGateway.Lib.JsonRead

/-!
# Writing JSON in ASCII

`write gap` writes a value as `json.dumps` does, with a gap behind every comma and colon: a blank
by default, nothing with compact separators. What is written is read back.
-/

namespace JsonText

open PyValue

/-! ### Numbers -/

/-- A text that a number is written with. -/
def IsNumber (t : Text) : Prop := readNumber t = some (.number t, [])

section Numbers

variable {rest : Text}

theorem Ends.not_digit (h : Ends rest) : ∀ c ∈ rest.head?, c.isDigit = false := by
  intro c hc
  rcases h c hc with rfl | rfl | rfl <;> decide

theorem takeWhile_digits (h : Ends rest) (l : Text) :
    (l ++ rest).takeWhile Char.isDigit = l.takeWhile Char.isDigit := by
  induction l with
  | nil =>
      cases rest with
      | nil => rfl
      | cons c rest => exact List.takeWhile_cons_of_neg (by simp [h.not_digit c rfl])
  | cons c l ih => rw [List.cons_append, List.takeWhile_cons, List.takeWhile_cons, ih]

theorem dropWhile_digits (h : Ends rest) (l : Text) :
    (l ++ rest).dropWhile Char.isDigit = l.dropWhile Char.isDigit ++ rest := by
  induction l with
  | nil =>
      cases rest with
      | nil => rfl
      | cons c rest => exact List.dropWhile_cons_of_neg (by simp [h.not_digit c rfl])
  | cons c l ih =>
      rw [List.cons_append, List.dropWhile_cons, List.dropWhile_cons]
      split_ifs
      · exact ih
      · rfl

/-- What stands behind a value is left over. -/
def leaving {α : Type} (rest : Text) (x : Option (α × Text)) : Option (α × Text) :=
  x.map fun (a, l) ↦ (a, l ++ rest)

theorem readDigits_append (h : Ends rest) (mark l : Text) :
    readDigits mark (l ++ rest) = leaving rest (readDigits mark l) := by
  unfold readDigits
  rw [takeWhile_digits h, dropWhile_digits h]
  dsimp only
  split_ifs <;> rfl

theorem readFraction_append (h : Ends rest) (l : Text) :
    readFraction (l ++ rest) = leaving rest (readFraction l) := by
  cases l with
  | nil =>
      cases rest with
      | nil => rfl
      | cons c rest => rcases h c rfl with rfl | rfl | rfl <;> rfl
  | cons c l =>
      rw [List.cons_append, readFraction, readFraction]
      split_ifs
      · exact readDigits_append h _ _
      · rfl

theorem readExponent_append (h : Ends rest) (l : Text) :
    readExponent (l ++ rest) = leaving rest (readExponent l) := by
  match l with
  | [] =>
      match rest, h with
      | [], _ => rfl
      | [_], _ => rfl
      | c :: d :: rest, h => rcases h c rfl with rfl | rfl | rfl <;> rfl
  | [c] =>
      cases rest with
      | nil => rfl
      | cons d rest =>
          change readExponent (c :: d :: rest) = none
          rw [readExponent]
          rcases h d rfl with rfl | rfl | rfl <;> split_ifs <;> simp_all [readDigits, closeBrace]
  | c :: d :: l =>
      rw [List.cons_append, List.cons_append, readExponent, readExponent, ← List.cons_append]
      split_ifs
      · exact readDigits_append h _ _
      · exact readDigits_append h _ _
      · rfl

theorem readInteger_append (h : Ends rest) (l : Text) :
    readInteger (l ++ rest) = leaving rest (readInteger l) := by
  cases l with
  | nil =>
      cases rest with
      | nil => rfl
      | cons c rest => rcases h c rfl with rfl | rfl | rfl <;> rfl
  | cons c l =>
      rw [List.cons_append, readInteger, readInteger, takeWhile_digits h, dropWhile_digits h]
      split_ifs <;> rfl

/-- The rest of a number, behind its integer part. -/
theorem getD_leaving {α : Type} (x : Option (α × Text)) (a : α) (l : Text) :
    (leaving rest x).getD (a, l ++ rest) = ((x.getD (a, l)).1, (x.getD (a, l)).2 ++ rest) := by
  cases x <;> rfl

theorem readNumber_append (h : Ends rest) (l : Text) :
    readNumber (l ++ rest) = leaving rest (readNumber l) := by
  cases l with
  | nil =>
      cases rest with
      | nil => rfl
      | cons c rest =>
          rcases h c rfl with rfl | rfl | rfl <;> simp [readNumber, readInteger, leaving, closeBrace]
  | cons c l =>
      have hdrop : ∀ sign : Text, sign = [] ∨ sign = ['-'] →
          (c :: l ++ rest).drop sign.length = (c :: l).drop sign.length ++ rest := by
        rintro sign (rfl | rfl) <;> rfl
      have hsign : (if some c = some '-' then ['-'] else ([] : Text)) = [] ∨
          (if some c = some '-' then ['-'] else ([] : Text)) = ['-'] := by
        split_ifs
        · exact .inr rfl
        · exact .inl rfl
      unfold readNumber
      rw [List.cons_append, List.head?_cons, List.head?_cons]
      dsimp only
      rw [← List.cons_append, hdrop _ hsign, readInteger_append h]
      cases readInteger ((c :: l).drop (if some c = some '-' then ['-'] else ([] : Text)).length) with
      | none => rfl
      | some digits =>
          obtain ⟨digits, l⟩ := digits
          simp only [leaving, Option.map_some]
          rw [readFraction_append h, getD_leaving]
          dsimp only
          rw [readExponent_append h, getD_leaving]
          dsimp only
          split_ifs <;> rfl

/-- A number starts with a digit, or with a sign and a digit. -/
theorem IsNumber.starts {t : Text} (h : IsNumber t) :
    ∃ c l, t = c :: l ∧ (c.isDigit = true ∨ c = '-' ∧ ∀ d ∈ l.head?, d.isDigit = true) := by
  have hdigit : ∀ l x, readInteger l = some x → ∃ c l', l = c :: l' ∧ c.isDigit = true := by
    intro l x hread
    cases l with
    | nil => cases hread
    | cons c l =>
        rw [readInteger] at hread
        split_ifs at hread with hzero hd
        · exact ⟨c, l, rfl, hzero ▸ by decide⟩
        · exact ⟨c, l, rfl, hd⟩
  unfold IsNumber readNumber at h
  obtain ⟨x, hread, -⟩ := Option.map_eq_some_iff.mp h
  split_ifs at hread with hminus
  · obtain ⟨c, l, hl, hd⟩ := hdigit _ _ hread
    obtain ⟨d, l', rfl⟩ : ∃ d l', t = d :: l' := by
      cases t with
      | nil => cases hminus
      | cons d l' => exact ⟨d, l', rfl⟩
    obtain rfl := Option.some.inj hminus
    refine ⟨_, l', rfl, .inr ⟨rfl, fun d hd' ↦ ?_⟩⟩
    have hl' : l' = c :: l := hl
    rw [hl'] at hd'
    exact Option.some.inj hd' ▸ hd
  · obtain ⟨c, l, hl, hd⟩ := hdigit _ _ hread
    exact ⟨c, l, hl, .inl hd⟩

end Numbers

theorem readNamed_number {c : Char} {l : Text}
    (h : c.isDigit = true ∨ c = '-' ∧ ∀ d ∈ l.head?, d.isDigit = true) :
    readNamed (c :: l) = none := by
  have hword : ∀ (word : String) v d w, word.toList = d :: w → d.isDigit = false → d ≠ '-' →
      readWord word v (c :: l) = none := by
    intro word v d w hw hd hminus
    refine if_neg fun hprefix ↦ ?_
    rw [hw] at hprefix
    obtain rfl := (List.cons_prefix_cons.mp hprefix).1
    rcases h with h | ⟨rfl, -⟩
    · rw [hd] at h
      cases h
    · exact hminus rfl
  have hinfinity : ¬ "-Infinity".toList <+: c :: l := by
    intro hprefix
    obtain ⟨heq, hprefix⟩ := List.cons_prefix_cons.mp hprefix
    rcases h with h | ⟨-, h⟩
    · rw [← heq] at h
      exact absurd h (by decide)
    · cases l with
      | nil => exact absurd (List.prefix_nil.mp hprefix) (by decide)
      | cons d l =>
          have hd := h d rfl
          rw [← (List.cons_prefix_cons.mp hprefix).1] at hd
          exact absurd hd (by decide)
  unfold readNamed
  rw [hword "null" _ _ _ rfl (by decide) (by decide), hword "true" _ _ _ rfl (by decide) (by decide),
    hword "false" _ _ _ rfl (by decide) (by decide), hword "NaN" _ _ _ rfl (by decide) (by decide),
    hword "Infinity" _ _ _ rfl (by decide) (by decide), readWord, if_neg hinfinity]
  rfl

theorem reads_number {t : Text} (h : IsNumber t) : Reads t (.number t) where
  starts := by
    obtain ⟨c, l, rfl, hc⟩ := h.starts
    refine ⟨c, l, rfl, ?_⟩
    rcases hc with hc | ⟨rfl, -⟩
    · unfold isBlank
      by_contra hblank
      simp only [Bool.not_eq_false, Bool.or_eq_true, beq_iff_eq] at hblank
      rcases hblank with ((rfl | rfl) | rfl) | rfl <;> revert hc <;> decide
    · decide
  reads fuel rest hfuel hends := by
    obtain ⟨fuel, rfl⟩ := Nat.exists_eq_succ_of_ne_zero (Nat.ne_of_gt (Nat.zero_lt_of_lt hfuel))
    obtain ⟨c, l, rfl, hc⟩ := h.starts
    have hne : ∀ d : Char, d.isDigit = false → d ≠ '-' → c ≠ d := by
      rintro d hd hminus rfl
      rcases hc with hc | ⟨rfl, -⟩
      · rw [hd] at hc
        cases hc
      · exact hminus rfl
    have hbehind : c.isDigit = true ∨ c = '-' ∧ ∀ d ∈ (l ++ rest).head?, d.isDigit = true := by
      refine hc.imp_right fun ⟨hminus, hl⟩ ↦ ⟨hminus, ?_⟩
      cases l with
      | cons d l => exact hl
      | nil => 
          subst hminus
          cases h
    have hread := readNumber_append hends (c :: l)
    rw [h] at hread
    rw [List.cons_append, readValue, if_neg (hne quote (by decide) (by decide)),
      if_neg (hne '[' (by decide) (by decide)), if_neg (hne openBrace (by decide) (by decide)),
      readNamed_number hbehind, Option.none_or]
    exact hread

/-! ### Values -/

def nonFiniteNames : List (Text × Text) :=
  [("nan".toList, "NaN".toList), ("inf".toList, "Infinity".toList),
    ("-inf".toList, "-Infinity".toList)]

section Write

variable (gap : Text)

mutual

def write : Value → Text
  | .null => "null".toList
  | .bool true => "true".toList
  | .bool false => "false".toList
  | .number t => t
  | .nonFinite t => (nonFiniteNames.lookup t).getD t
  | .str t => text t
  | .arr items => gappedArray gap (writeItems items)
  | .obj fields => gappedObject gap (writeFields fields)

def writeItems : List Value → List Text
  | [] => []
  | v :: rest => write v :: writeItems rest

def writeFields : List (Text × Value) → List (Text × Text)
  | [] => []
  | field :: rest => writeField field :: writeFields rest

def writeField : Text × Value → Text × Text
  | (k, v) => (k, write v)

end

theorem writeItems_eq_map (items : List Value) : writeItems gap items = items.map (write gap) := by
  induction items with
  | nil => rfl
  | cons v items ih => exact congrArg (write gap v :: ·) ih

theorem writeFields_eq_map (fields : Fields) :
    writeFields gap fields = fields.map fun field ↦ (field.1, write gap field.2) := by
  induction fields with
  | nil => rfl
  | cons field fields ih =>
      obtain ⟨k, v⟩ := field
      exact congrArg ((k, write gap v) :: ·) ih

end Write

mutual

/-- A value of Python: its numbers are written as numbers, and its dictionaries have no key
twice. -/
def Written : Value → Prop
  | .number t => IsNumber t
  | .nonFinite t => t ∈ nonFiniteNames.map Prod.fst
  | .arr items => WrittenItems items
  | .obj fields => (fields.map Prod.fst).Nodup ∧ WrittenFields fields
  | _ => True

def WrittenItems : List Value → Prop
  | [] => True
  | v :: rest => Written v ∧ WrittenItems rest

def WrittenFields : List (Text × Value) → Prop
  | [] => True
  | field :: rest => WrittenField field ∧ WrittenFields rest

def WrittenField : Text × Value → Prop
  | (_, v) => Written v

end

theorem readNamed_reads (word : String) {v : Value} (hstarts : ∃ c l, word.toList = c :: l ∧
      isBlank c = false ∧ c ≠ quote ∧ c ≠ '[' ∧ c ≠ openBrace)
    (h : ∀ rest, readNamed (word.toList ++ rest) = some (v, rest)) : Reads word.toList v where
  starts := by
    obtain ⟨c, l, hl, hblank, -⟩ := hstarts
    exact ⟨c, l, hl, hblank⟩
  reads fuel rest hfuel _ := by
    obtain ⟨fuel, rfl⟩ := Nat.exists_eq_succ_of_ne_zero (Nat.ne_of_gt (Nat.zero_lt_of_lt hfuel))
    obtain ⟨c, l, hl, -, hquote, hbracket, hbrace⟩ := hstarts
    have hread := h rest
    rw [hl, List.cons_append] at hread ⊢
    rw [readValue, if_neg hquote, if_neg hbracket, if_neg hbrace, hread]
    rfl

theorem reads_null : Reads "null".toList .null :=
  readNamed_reads "null" ⟨_, _, rfl, by decide, by decide, by decide, by decide⟩ fun rest ↦ by
    simp [readNamed, readWord]
    rfl

theorem reads_bool (b : Bool) : Reads (if b then "true".toList else "false".toList) (.bool b) := by
  cases b with
  | true =>
      exact readNamed_reads "true" ⟨_, _, rfl, by decide, by decide, by decide, by decide⟩
        fun rest ↦ by
          simp [readNamed, readWord]
          rfl
  | false =>
      exact readNamed_reads "false" ⟨_, _, rfl, by decide, by decide, by decide, by decide⟩
        fun rest ↦ by
          simp [readNamed, readWord]
          rfl

theorem reads_nonFinite {t : Text} (h : t ∈ nonFiniteNames.map Prod.fst) :
    Reads ((nonFiniteNames.lookup t).getD t) (.nonFinite t) := by
  simp only [nonFiniteNames, List.map_cons, List.map_nil, List.mem_cons, List.not_mem_nil,
    or_false] at h
  rcases h with rfl | rfl | rfl
  · exact readNamed_reads "NaN" ⟨_, _, rfl, by decide, by decide, by decide, by decide⟩
      fun rest ↦ by
        simp [readNamed, readWord]
        rfl
  · exact readNamed_reads "Infinity" ⟨_, _, rfl, by decide, by decide, by decide, by decide⟩
      fun rest ↦ by
        simp [readNamed, readWord]
        rfl
  · exact readNamed_reads "-Infinity" ⟨_, _, rfl, by decide, by decide, by decide, by decide⟩
      fun rest ↦ by
        simp [readNamed, readWord]
        rfl

section RoundTrip

variable {gap : Text}

mutual

theorem reads_write (hgap : ∀ c ∈ gap, isBlank c = true) : ∀ v : Value, Written v → Reads (write gap v) v
  | .null, _ => reads_null
  | .bool true, _ => reads_bool true
  | .bool false, _ => reads_bool false
  | .number _, h => reads_number h
  | .nonFinite _, h => reads_nonFinite h
  | .str t, _ => reads_text t
  | .arr items, h => by
      have hreads := reads_gappedArray hgap (items.map fun v ↦ (write gap v, v)) (by
        rintro _ hmem
        obtain ⟨v, hv, rfl⟩ := List.mem_map.mp hmem
        exact reads_writeItems hgap items h v hv)
      simpa [write, writeItems_eq_map, Function.comp_def] using hreads
  | .obj fields, h => by
      have hreads := reads_gappedObject hgap (fields.map fun f ↦ (f.1, write gap f.2, f.2))
        (by simpa [Function.comp_def] using h.1) (by
          rintro _ hmem
          obtain ⟨f, hf, rfl⟩ := List.mem_map.mp hmem
          exact reads_writeFields hgap fields h.2 f hf)
      simpa [write, writeFields_eq_map, Function.comp_def] using hreads

theorem reads_writeItems (hgap : ∀ c ∈ gap, isBlank c = true) : ∀ items : List Value,
    WrittenItems items → ∀ v ∈ items, Reads (write gap v) v
  | [], _, _, h => nomatch h
  | w :: rest, hwritten, v, h => by
      rcases List.mem_cons.mp h with heq | h
      · rw [heq]
        exact reads_write hgap w hwritten.1
      · exact reads_writeItems hgap rest hwritten.2 v h

theorem reads_writeFields (hgap : ∀ c ∈ gap, isBlank c = true) :
    ∀ fields : List (Text × Value), WrittenFields fields → ∀ f ∈ fields, Reads (write gap f.2) f.2
  | [], _, _, h => nomatch h
  | g :: rest, hwritten, f, h => by
      rcases List.mem_cons.mp h with heq | h
      · rw [heq]
        exact reads_writeField hgap g hwritten.1
      · exact reads_writeFields hgap rest hwritten.2 f h

theorem reads_writeField (hgap : ∀ c ∈ gap, isBlank c = true) :
    ∀ f : Text × Value, WrittenField f → Reads (write gap f.2) f.2
  | (_, v), h => reads_write hgap v h

end

/-- What is written is read back. -/
theorem loads_write (hgap : ∀ c ∈ gap, isBlank c = true) {v : Value} (h : Written v) : loads (write gap v) = some v :=
  loads_of_reads (reads_write hgap v h)

end RoundTrip

end JsonText
