import AxonGateway.Lib.JsonRead

/-!
# Where a value ends

A reader leaves a suffix of its text. An array whose last item is a string was closed by a bracket
behind a quote, with nothing but blanks around the bracket.
-/

namespace JsonText

open PyValue

/-! ### What is left is a suffix -/

theorem suffix_of_readHex4 {l rest : Text} {n : ℕ} (h : readHex4 l = some (n, rest)) : rest <:+ l := by
  match l with
  | a :: b :: c :: d :: l =>
      simp only [readHex4, Option.bind_eq_bind, Option.bind_eq_some_iff, Option.pure_def,
        Option.some.injEq, Prod.mk.injEq] at h
      obtain ⟨-, -, -, -, -, -, -, -, -, rfl⟩ := h
      exact ⟨[a, b, c, d], rfl⟩

theorem suffix_of_readCodeUnit {l rest : Text} {n : ℕ} (h : readCodeUnit l = some (n, rest)) :
    rest <:+ l := by
  match l with
  | a :: b :: l =>
      rw [readCodeUnit] at h
      split_ifs at h
      exact (suffix_of_readHex4 h).trans ⟨[a, b], rfl⟩

theorem suffix_of_unescape {l rest : Text} {c : Char} (h : unescape l = some (c, rest)) :
    rest <:+ l := by
  unfold unescape at h
  cases hunit : readCodeUnit l with
  | some unit =>
      obtain ⟨n, behind⟩ := unit
      have hbehind := suffix_of_readCodeUnit hunit
      rw [hunit] at h
      dsimp only at h
      split_ifs at h with hhigh hlow
      · obtain ⟨low, hlow, h⟩ := Option.bind_eq_some_iff.mp h
        split_ifs at h
        obtain ⟨-, rfl⟩ := Prod.mk.inj (Option.some.inj h)
        exact (suffix_of_readCodeUnit (n := low.1) hlow).trans hbehind
      · obtain ⟨-, rfl⟩ := Prod.mk.inj (Option.some.inj h)
        exact hbehind
  | none =>
      rw [hunit] at h
      cases l with
      | nil => cases h
      | cons a l =>
          dsimp only at h
          split_ifs at h
          · obtain ⟨letter, -, h⟩ := Option.bind_eq_some_iff.mp h
            obtain ⟨entry, -, h⟩ := Option.map_eq_some_iff.mp h
            obtain ⟨-, rfl⟩ := Prod.mk.inj h
            exact (List.tail_suffix l).trans (List.suffix_cons a l)
          · obtain ⟨-, rfl⟩ := Prod.mk.inj (Option.some.inj h)
            exact List.suffix_cons a _

theorem suffix_of_readChar {l rest : Text} {c : Char} (h : readChar l = some (c, rest)) :
    rest <:+ l := by
  unfold readChar at h
  split at h
  · split_ifs at h
    · obtain ⟨-, rfl⟩ := Prod.mk.inj (Option.some.inj h)
      exact ⟨[_, _], rfl⟩
    · exact suffix_of_unescape h
  · exact suffix_of_unescape h

/-- A string ends with a quote. -/
theorem exists_of_readChars {fuel : ℕ} {l rest s : Text} (h : readChars fuel l = some (s, rest)) :
    quote :: rest <:+ l := by
  induction fuel generalizing l s with
  | zero => cases h
  | succ fuel ih =>
      cases l with
      | nil => cases h
      | cons c l =>
          rw [readChars] at h
          split_ifs at h with hquote
          · obtain ⟨-, rfl⟩ := Prod.mk.inj (Option.some.inj h)
            rw [hquote]
          · obtain ⟨first, hfirst, h⟩ := Option.bind_eq_some_iff.mp h
            obtain ⟨later, hlater, h⟩ := Option.map_eq_some_iff.mp h
            obtain ⟨-, rfl⟩ := Prod.mk.inj h
            exact (ih hlater).trans (suffix_of_readChar (c := first.1) hfirst)

theorem suffix_of_readDigits {mark l rest digits : Text}
    (h : readDigits mark l = some (digits, rest)) : rest <:+ l := by
  unfold readDigits at h
  dsimp only at h
  split_ifs at h
  obtain ⟨-, rfl⟩ := Prod.mk.inj (Option.some.inj h)
  exact List.dropWhile_suffix _

theorem suffix_of_readFraction {l rest fraction : Text}
    (h : readFraction l = some (fraction, rest)) : rest <:+ l := by
  cases l with
  | nil => cases h
  | cons c l =>
      rw [readFraction] at h
      split_ifs at h
      exact (suffix_of_readDigits h).trans (List.suffix_cons c l)

theorem suffix_of_readExponent {l rest exponent : Text}
    (h : readExponent l = some (exponent, rest)) : rest <:+ l := by
  match l with
  | c :: d :: l =>
      rw [readExponent] at h
      split_ifs at h
      · exact (suffix_of_readDigits h).trans ⟨[c, d], rfl⟩
      · exact (suffix_of_readDigits h).trans (List.suffix_cons c _)

theorem suffix_of_readInteger {l rest digits : Text}
    (h : readInteger l = some (digits, rest)) : rest <:+ l := by
  cases l with
  | nil => cases h
  | cons c l =>
      rw [readInteger] at h
      split_ifs at h
      · obtain ⟨-, rfl⟩ := Prod.mk.inj (Option.some.inj h)
        exact List.suffix_cons c _
      · obtain ⟨-, rfl⟩ := Prod.mk.inj (Option.some.inj h)
        exact (List.dropWhile_suffix _).trans (List.suffix_cons c l)

/-- A part of a number that may be missing. -/
theorem suffix_of_getD {read : Text → Option (Text × Text)} (l : Text)
    (h : ∀ part rest, read l = some (part, rest) → rest <:+ l) :
    ((read l).getD ([], l)).2 <:+ l := by
  cases hread : read l with
  | none => exact List.suffix_rfl
  | some x => exact h x.1 x.2 hread

theorem suffix_of_readNumber {l rest : Text} {v : Value} (h : readNumber l = some (v, rest)) :
    rest <:+ l := by
  unfold readNumber at h
  obtain ⟨⟨digits, behind⟩, hinteger, h⟩ := Option.map_eq_some_iff.mp h
  have hdigits : behind <:+ l := (suffix_of_readInteger hinteger).trans (List.drop_suffix _ l)
  have hfraction := suffix_of_getD behind fun _ _ ↦ suffix_of_readFraction
  have hexponent := suffix_of_getD ((readFraction behind).getD ([], behind)).2
    fun _ _ ↦ suffix_of_readExponent
  have hrest : rest = ((readExponent ((readFraction behind).getD ([], behind)).2).getD
      ([], ((readFraction behind).getD ([], behind)).2)).2 := by
    dsimp only at h
    split_ifs at h <;> exact (congrArg Prod.snd h).symm
  rw [hrest]
  exact hexponent.trans (hfraction.trans hdigits)

theorem suffix_of_readNamed {l rest : Text} {v : Value} (h : readNamed l = some (v, rest)) :
    rest <:+ l := by
  have hword : ∀ (word : String) (w : Value), readWord word w l = some (v, rest) → rest <:+ l := by
    intro word w hread
    unfold readWord at hread
    split_ifs at hread
    obtain ⟨-, rfl⟩ := Prod.mk.inj (Option.some.inj hread)
    exact List.drop_suffix _ l
  simp only [readNamed, Option.orElse_eq_orElse, Option.orElse_eq_or, Option.or_eq_some_iff] at h
  rcases h with h | ⟨-, h | ⟨-, h | ⟨-, h | ⟨-, h | ⟨-, h⟩⟩⟩⟩⟩ <;> exact hword _ _ h

theorem suffix_of_skipBlanks (l : Text) : skipBlanks l <:+ l := List.dropWhile_suffix _

theorem suffix_of_skipBlanks_eq {l rest : Text} {c : Char} (h : skipBlanks l = c :: rest) :
    rest <:+ l :=
  (List.suffix_cons c rest).trans (h ▸ suffix_of_skipBlanks l)

theorem suffix_of_tail_skipBlanks (l : Text) : (skipBlanks l).tail <:+ l :=
  (List.tail_suffix _).trans (suffix_of_skipBlanks l)

/-- Values, items and members leave a suffix. -/
theorem suffix_of_read (fuel : ℕ) :
    (∀ l v rest, readValue fuel l = some (v, rest) → rest <:+ l) ∧
    (∀ l items rest, readItems fuel l = some (items, rest) → rest <:+ l) ∧
    (∀ l members rest, readMembers fuel l = some (members, rest) → rest <:+ l) := by
  induction fuel with
  | zero =>
      refine ⟨fun l v rest h ↦ ?_, fun l items rest h ↦ ?_, fun l members rest h ↦ ?_⟩
      · cases l <;> cases h
      · cases h
      · cases h
  | succ fuel ih =>
      obtain ⟨hvalue, hitems, hmembers⟩ := ih
      refine ⟨fun l v rest h ↦ ?_, fun l items rest h ↦ ?_, fun l members rest h ↦ ?_⟩
      · cases l with
        | nil => cases h
        | cons c l =>
            have hinner := fun (inner : Text) (hsub : inner <:+ l) ↦ hsub.trans (List.suffix_cons c l)
            rw [readValue] at h
            split_ifs at h
            · obtain ⟨⟨s, behind⟩, hread, h⟩ := Option.map_eq_some_iff.mp h
              obtain ⟨-, rfl⟩ := Prod.mk.inj h
              exact hinner _ ((List.suffix_cons _ _).trans (exists_of_readChars hread))
            · obtain ⟨-, rfl⟩ := Prod.mk.inj (Option.some.inj h)
              exact hinner _ (suffix_of_tail_skipBlanks l)
            · obtain ⟨⟨items, behind⟩, hread, h⟩ := Option.map_eq_some_iff.mp h
              obtain ⟨-, rfl⟩ := Prod.mk.inj h
              exact hinner _ ((hitems _ _ _ hread).trans (suffix_of_skipBlanks l))
            · obtain ⟨-, rfl⟩ := Prod.mk.inj (Option.some.inj h)
              exact hinner _ (suffix_of_tail_skipBlanks l)
            · obtain ⟨⟨members, behind⟩, hread, h⟩ := Option.map_eq_some_iff.mp h
              obtain ⟨-, rfl⟩ := Prod.mk.inj h
              exact hinner _ ((hmembers _ _ _ hread).trans (suffix_of_skipBlanks l))
            · rcases Option.or_eq_some_iff.mp h with h | ⟨-, h⟩
              · exact suffix_of_readNamed h
              · exact suffix_of_readNumber h
      · rw [readItems] at h
        obtain ⟨⟨item, behind⟩, hread, h⟩ := Option.bind_eq_some_iff.mp h
        have hbehind := hvalue _ _ _ hread
        dsimp only at h
        cases hskip : skipBlanks behind with
        | nil => simp [hskip] at h
        | cons c next =>
            have hnext := (suffix_of_skipBlanks_eq hskip).trans hbehind
            rw [hskip] at h
            dsimp only at h
            split_ifs at h
            · obtain ⟨-, rfl⟩ := Prod.mk.inj (Option.some.inj h)
              exact hnext
            · obtain ⟨⟨later, left⟩, hlater, h⟩ := Option.map_eq_some_iff.mp h
              obtain ⟨-, rfl⟩ := Prod.mk.inj h
              exact ((hitems _ _ _ hlater).trans (suffix_of_skipBlanks next)).trans hnext
      · rw [readMembers] at h
        split_ifs at h
        obtain ⟨⟨key, behind⟩, hkey, h⟩ := Option.bind_eq_some_iff.mp h
        have hbehind : behind <:+ l := ((List.suffix_cons _ _).trans (exists_of_readChars hkey)).trans
          (List.tail_suffix l)
        dsimp only at h
        split_ifs at h
        obtain ⟨⟨v, after⟩, hread, h⟩ := Option.bind_eq_some_iff.mp h
        have hafter : after <:+ l := (hvalue _ _ _ hread).trans
          ((suffix_of_skipBlanks _).trans ((suffix_of_tail_skipBlanks behind).trans hbehind))
        dsimp only at h
        cases hskip : skipBlanks after with
        | nil => simp [hskip] at h
        | cons c next =>
            have hnext := (suffix_of_skipBlanks_eq hskip).trans hafter
            rw [hskip] at h
            dsimp only at h
            split_ifs at h
            · obtain ⟨-, rfl⟩ := Prod.mk.inj (Option.some.inj h)
              exact hnext
            · obtain ⟨⟨later, left⟩, hlater, h⟩ := Option.map_eq_some_iff.mp h
              obtain ⟨-, rfl⟩ := Prod.mk.inj h
              exact ((hmembers _ _ _ hlater).trans (suffix_of_skipBlanks next)).trans hnext

/-! ### The end of an array -/

/-- Behind these only blanks stand before the bracket. -/
def Closes (c : Char) : Prop := c = quote ∨ isBlank c = true

theorem exists_blanks (l : Text) : ∃ blanks, (∀ c ∈ blanks, isBlank c = true) ∧ l = blanks ++ skipBlanks l :=
  ⟨l.takeWhile isBlank, fun _ hc ↦ List.mem_takeWhile_imp hc, List.takeWhile_append_dropWhile.symm⟩

/-- Neither a text nor a compound value has a name. -/
theorem readNamed_ne {l rest : Text} {v : Value} (hnull : v ≠ .null) (hbool : ∀ b, v ≠ .bool b)
    (hfinite : ∀ t, v ≠ .nonFinite t) : readNamed l ≠ some (v, rest) := by
  intro h
  have hword : ∀ (word : String) (w : Value), w ≠ v → readWord word w l ≠ some (v, rest) := by
    intro word w hne hread
    unfold readWord at hread
    split_ifs at hread
    exact hne (Prod.mk.inj (Option.some.inj hread)).1
  simp only [readNamed, Option.orElse_eq_orElse, Option.orElse_eq_or, Option.or_eq_some_iff] at h
  rcases h with h | ⟨-, h | ⟨-, h | ⟨-, h | ⟨-, h | ⟨-, h⟩⟩⟩⟩⟩
  · exact hword _ _ hnull.symm h
  · exact hword _ _ (hbool _).symm h
  · exact hword _ _ (hbool _).symm h
  · exact hword _ _ (hfinite _).symm h
  · exact hword _ _ (hfinite _).symm h
  · exact hword _ _ (hfinite _).symm h

theorem exists_of_readNumber {l rest : Text} {v : Value} (h : readNumber l = some (v, rest)) :
    ∃ text, v = .number text := by
  unfold readNumber at h
  obtain ⟨x, -, h⟩ := Option.map_eq_some_iff.mp h
  dsimp only at h
  split_ifs at h <;> exact ⟨_, (Prod.mk.inj h).1.symm⟩

theorem quote_suffix_of_readValue {fuel : ℕ} {l rest s : Text}
    (h : readValue fuel l = some (.str s, rest)) : quote :: rest <:+ l := by
  cases fuel with
  | zero => cases l <;> cases h
  | succ fuel =>
      cases l with
      | nil => cases h
      | cons c l =>
          rw [readValue] at h
          split_ifs at h
          · obtain ⟨⟨text, behind⟩, hread, h⟩ := Option.map_eq_some_iff.mp h
            obtain ⟨-, rfl⟩ := Prod.mk.inj h
            exact (exists_of_readChars hread).trans (List.suffix_cons c l)
          · cases h
          · obtain ⟨_, -, h⟩ := Option.map_eq_some_iff.mp h
            cases h
          · cases h
          · obtain ⟨_, -, h⟩ := Option.map_eq_some_iff.mp h
            cases h
          · rcases Option.or_eq_some_iff.mp h with h | ⟨-, h⟩
            · exact absurd h (readNamed_ne (fun h ↦ by cases h) (fun _ h ↦ by cases h) fun _ h ↦ by cases h)
            · obtain ⟨text, htext⟩ := exists_of_readNumber h
              cases htext

theorem ne_nil_of_readItems {fuel : ℕ} {l rest : Text} {items : List Value}
    (h : readItems fuel l = some (items, rest)) : items ≠ [] := by
  rintro rfl
  cases fuel with
  | zero => cases h
  | succ fuel =>
      rw [readItems] at h
      obtain ⟨⟨item, behind⟩, -, h⟩ := Option.bind_eq_some_iff.mp h
      dsimp only at h
      split at h
      · split_ifs at h
        · cases h
        · obtain ⟨_, -, h⟩ := Option.map_eq_some_iff.mp h
          cases h
      · cases h

/-- A list of items whose last one is a string. -/
theorem closes_of_readItems {fuel : ℕ} {l rest : Text} {items : List Value}
    (h : readItems fuel l = some (items, rest)) {s : Text} (hlast : items.getLast? = some (.str s)) :
    ∃ c, Closes c ∧ c :: ']' :: rest <:+ l := by
  induction fuel generalizing l items with
  | zero => cases h
  | succ fuel ih =>
      rw [readItems] at h
      obtain ⟨⟨item, behind⟩, hread, h⟩ := Option.bind_eq_some_iff.mp h
      dsimp only at h
      cases hskip : skipBlanks behind with
      | nil => simp [hskip] at h
      | cons c next =>
          have hnext := (suffix_of_skipBlanks_eq hskip).trans ((suffix_of_read fuel).1 _ _ _ hread)
          rw [hskip] at h
          dsimp only at h
          split_ifs at h with hbracket
          · obtain ⟨rfl, rfl⟩ := Prod.mk.inj (Option.some.inj h)
            obtain rfl : item = .str s := Option.some.inj hlast
            obtain ⟨blanks, hblanks, hbehind⟩ := exists_blanks behind
            obtain hnil | ⟨init, d, hd⟩ := List.eq_nil_or_concat' (quote :: blanks)
            · cases hnil
            refine ⟨d, ?_, List.IsSuffix.trans ⟨init, ?_⟩ (quote_suffix_of_readValue hread)⟩
            · have hmem : d ∈ quote :: blanks := hd ▸ List.mem_append_right init List.mem_cons_self
              exact (List.mem_cons.mp hmem).imp id fun hmem ↦ hblanks d hmem
            · rw [hbehind, hskip, hbracket, ← List.cons_append, hd, List.append_assoc,
                List.singleton_append]
          · obtain ⟨⟨later, left⟩, hlater, h⟩ := Option.map_eq_some_iff.mp h
            obtain ⟨rfl, rfl⟩ := Prod.mk.inj h
            rw [List.getLast?_cons_of_ne_nil (ne_nil_of_readItems hlater)] at hlast
            obtain ⟨d, hd, hsuffix⟩ := ih hlater hlast
            exact ⟨d, hd, hsuffix.trans ((suffix_of_skipBlanks next).trans hnext)⟩

theorem closes_of_readValue {fuel : ℕ} {l rest s : Text} {items : List Value}
    (h : readValue fuel l = some (.arr items, rest)) (hlast : items.getLast? = some (.str s)) :
    ∃ c, Closes c ∧ c :: ']' :: rest <:+ l := by
  cases fuel with
  | zero => cases l <;> cases h
  | succ fuel =>
      cases l with
      | nil => cases h
      | cons c l =>
          rw [readValue] at h
          split_ifs at h
          · obtain ⟨_, -, h⟩ := Option.map_eq_some_iff.mp h
            cases h
          · cases h
            cases hlast
          · obtain ⟨⟨more, behind⟩, hread, h⟩ := Option.map_eq_some_iff.mp h
            cases h
            obtain ⟨d, hd, hsuffix⟩ := closes_of_readItems hread hlast
            exact ⟨d, hd, hsuffix.trans ((suffix_of_skipBlanks l).trans (List.suffix_cons c l))⟩
          · cases h
          · obtain ⟨_, -, h⟩ := Option.map_eq_some_iff.mp h
            cases h
          · rcases Option.or_eq_some_iff.mp h with h | ⟨-, h⟩
            · exact absurd h (readNamed_ne (fun h ↦ by cases h) (fun _ h ↦ by cases h) fun _ h ↦ by cases h)
            · obtain ⟨text, htext⟩ := exists_of_readNumber h
              cases htext

/-- A text that is read as an array whose last item is a string ends with a bracket and blanks,
behind a quote and blanks. -/
theorem exists_ends_of_loads {l s : Text} {items : List Value} (h : loads l = some (.arr items))
    (hlast : items.getLast? = some (.str s)) :
    ∃ init x y, l = init ++ [x, y] ∧
      (isBlank y = true ∧ (x = ']' ∨ isBlank x = true) ∨ y = ']' ∧ Closes x) := by
  unfold loads at h
  obtain ⟨⟨v, rest⟩, hread, h⟩ := Option.bind_eq_some_iff.mp h
  dsimp only at h
  split_ifs at h with hrest
  obtain rfl : v = .arr items := Option.some.inj h
  have hblank : ∀ c ∈ rest, isBlank c = true := by
    obtain ⟨blanks, hblanks, heq⟩ := exists_blanks rest
    rw [List.isEmpty_iff.mp hrest, List.append_nil] at heq
    exact heq ▸ hblanks
  obtain ⟨c, hc, hsuffix⟩ := closes_of_readValue hread hlast
  obtain ⟨pre, rfl⟩ := hsuffix.trans (suffix_of_skipBlanks l)
  obtain rfl | ⟨blanks, y, rfl⟩ := List.eq_nil_or_concat' rest
  · exact ⟨pre, c, ']', rfl, .inr ⟨rfl, hc⟩⟩
  · have hy := hblank y (List.mem_append_right _ List.mem_cons_self)
    obtain rfl | ⟨more, x, rfl⟩ := List.eq_nil_or_concat' blanks
    · exact ⟨pre ++ [c], ']', y, by simp, .inl ⟨hy, .inl rfl⟩⟩
    · refine ⟨pre ++ c :: ']' :: more, x, y, by simp, .inl ⟨hy, .inr (hblank x ?_)⟩⟩
      simp

end JsonText
