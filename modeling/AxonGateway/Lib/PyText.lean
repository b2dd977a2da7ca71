import Mathlib

/-!
# Blank strings

`str.strip` removes the characters for which `str.isspace` holds, so a string
strips to the empty string when all its characters are of that kind.
-/

namespace PyText

/-- The white space of `str.strip`. -/
def isSpace (c : Char) : Bool :=
  let n := c.toNat
  (9 ≤ n && n ≤ 13) || (28 ≤ n && n ≤ 32) || n == 0x85 || n == 0xA0 || n == 0x1680 ||
    (0x2000 ≤ n && n ≤ 0x200A) || n == 0x2028 || n == 0x2029 || n == 0x202F || n == 0x205F ||
    n == 0x3000

/-- Nothing is left after `strip`. -/
def isBlank (s : String) : Bool := s.toList.all isSpace

end PyText
