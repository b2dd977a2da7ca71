import AxonGateway.Lib.PyValue

/-!
# Lower case

`str.lower` maps character by character, but for a capital sigma, which becomes a final sigma
behind a letter that no letter follows.  A character that is neither cased nor ignored for case
therefore separates a text into parts that are lowered on their own.
-/

namespace PyValue

/-- What `str` methods and `re` take from the Unicode database. -/
structure Unicode where
  /-- The full lower case mapping. -/
  lowerChar : Char → Text
  cased : Char → Bool
  caseIgnorable : Char → Bool
  isPrintable : Char → Bool
  upper : Text → Text
  /-- `unicodedata.normalize` with the form NFKD. -/
  nfkd : Text → Text
  isSpace : Char → Bool
  isWord : Char → Bool
  /-- Whether two characters are equal for `re.IGNORECASE`. -/
  sameLetter : Char → Char → Bool
  lowerChar_space : lowerChar ' ' = [' ']
  cased_space : cased ' ' = false
  caseIgnorable_space : caseIgnorable ' ' = false

namespace Unicode

variable (U : Unicode)

def capitalSigma : Char := Char.ofNat 0x3a3

def smallSigma : Char := Char.ofNat 0x3c3

def finalSigma : Char := Char.ofNat 0x3c2

/-- The first character that is not ignored for case is a cased one. -/
def startsCased (text : Text) : Bool := (text.dropWhile U.caseIgnorable).head?.any U.cased

/-- The lower case of a text, given the text before it in reverse. -/
def lowerFrom (before : Text) : Text → Text
  | [] => []
  | c :: cs =>
      (if c = capitalSigma then
        [if U.startsCased before && !U.startsCased cs then finalSigma else smallSigma]
      else U.lowerChar c) ++ lowerFrom (c :: before) cs

/-- `str.lower` -/
def lower (text : Text) : Text := U.lowerFrom [] text

variable {U}

theorem startsCased_append_space (u v : Text) : U.startsCased (u ++ ' ' :: v) = U.startsCased u := by
  induction u with
  | nil => simp [startsCased, U.caseIgnorable_space, U.cased_space]
  | cons c u ih =>
      simp only [startsCased, List.cons_append, List.dropWhile_cons] at ih ⊢
      split
      · exact ih
      · rfl

theorem lowerFrom_space_before (u v text : Text) :
    U.lowerFrom (u ++ ' ' :: v) text = U.lowerFrom u text := by
  induction text generalizing u with
  | nil => rfl
  | cons c text ih =>
      have hrest := ih (c :: u)
      rw [List.cons_append] at hrest
      rw [lowerFrom, lowerFrom, startsCased_append_space, hrest]

theorem lowerFrom_append_space (u a b : Text) :
    U.lowerFrom u (a ++ ' ' :: b) = U.lowerFrom u a ++ ' ' :: U.lower b := by
  induction a generalizing u with
  | nil =>
      have hspace : ' ' ≠ capitalSigma := by decide
      have hrest : U.lowerFrom (' ' :: u) b = U.lower b := lowerFrom_space_before [] u b
      simp [lowerFrom, hspace, U.lowerChar_space, hrest]
  | cons c a ih =>
      rw [List.cons_append, lowerFrom, lowerFrom, startsCased_append_space, ih, List.append_assoc]

theorem lower_append_space (a b : Text) : U.lower (a ++ ' ' :: b) = U.lower a ++ ' ' :: U.lower b :=
  lowerFrom_append_space [] a b

theorem lower_space_cons (b : Text) : U.lower (' ' :: b) = ' ' :: U.lower b :=
  lower_append_space [] b

/-- A space on either side of the middle keeps the sides apart from it. -/
theorem lower_append_append {a m b : Text} (ha : a = [] ∨ m.head? = some ' ')
    (hb : b = [] ∨ m.getLast? = some ' ') :
    U.lower (a ++ m ++ b) = U.lower a ++ U.lower m ++ U.lower b := by
  have hright : ∀ x, m.getLast? = some ' ' → U.lower (x ++ m ++ b) = U.lower (x ++ m) ++ U.lower b := by
    intro x hm
    obtain ⟨m', rfl⟩ := List.getLast?_eq_some_iff.mp hm
    have hnil : U.lower [] = [] := rfl
    rw [← List.append_assoc, List.append_assoc _ [' '] b, List.singleton_append,
      lower_append_space, lower_append_space, hnil]
    simp
  have hleft : U.lower (a ++ m) = U.lower a ++ U.lower m := by
    rcases ha with rfl | hm
    · rfl
    · obtain ⟨m', rfl⟩ := List.head?_eq_some_iff.mp hm
      rw [lower_append_space, lower_space_cons]
  rcases hb with rfl | hm
  · have hnil : U.lower [] = [] := rfl
    rw [List.append_nil, hnil, List.append_nil, hleft]
  · rw [hright a hm, hleft]

end Unicode

end PyValue
