import Mathlib

/-!
# Backtracking patterns

A pattern gives the ends of its matches at a position in the order in which they are tried,
the longest repetition first. `findAll` takes the first match at each position from the left,
as `re.findall` does with a pattern that matches no empty text.
-/

/-- The character before a position of a text, and the text from there on. -/
structure TextPos where
  prev : Option Char
  rest : List Char
  deriving DecidableEq

inductive Pattern where
  | char (p : Char → Bool)
  | seq (r s : Pattern)
  | alt (r s : Pattern)
  | star (r : Pattern)
  | boundary (word : Char → Bool)

namespace Pattern

/-- Repeat `f`, most often first, as long as it consumes. -/
def iterate (f : TextPos → List TextPos) : ℕ → TextPos → List TextPos
  | 0, pos => [pos]
  | n + 1, pos =>
      ((f pos).filter fun next ↦ next.rest.length < pos.rest.length).flatMap (iterate f n) ++ [pos]

def ends : Pattern → TextPos → List TextPos
  | .char p, pos =>
      match pos.rest with
      | [] => []
      | c :: cs => if p c then [⟨some c, cs⟩] else []
  | .seq r s, pos => (r.ends pos).flatMap s.ends
  | .alt r s, pos => r.ends pos ++ s.ends pos
  | .star r, pos => iterate r.ends pos.rest.length pos
  | .boundary word, pos => if pos.prev.any word != pos.rest.head?.any word then [pos] else []

def plus (r : Pattern) : Pattern := r.seq r.star

def lit (c : Char) : Pattern := char (· == c)

/-- The matches in a text of at most `n` positions, from `pos` on. -/
def findFrom (r : Pattern) : ℕ → TextPos → List (List Char)
  | 0, _ => []
  | n + 1, pos =>
      match (r.ends pos).find? fun next ↦ next.rest.length < pos.rest.length with
      | some next =>
          pos.rest.take (pos.rest.length - next.rest.length) :: r.findFrom n next
      | none =>
          match pos.rest with
          | [] => []
          | c :: cs => r.findFrom n ⟨some c, cs⟩

def findAll (r : Pattern) (text : List Char) : List (List Char) :=
  r.findFrom (text.length + 1) ⟨none, text⟩

/-- `r{n,}` -/
def atLeast : ℕ → Pattern → Pattern
  | 0, r => star r
  | n + 1, r => r.seq (atLeast n r)

/-- `r?s` -/
def optional (r s : Pattern) : Pattern := (r.seq s).alt s

/-- The alternatives in their order. -/
def alts (r : Pattern) : List Pattern → Pattern
  | [] => r
  | s :: rs => r.alt (s.alts rs)

/-- Whether the pattern matches at some position, as `re.search` does. -/
def searchFrom (r : Pattern) (prev : Option Char) : List Char → Bool
  | [] => !(r.ends ⟨prev, []⟩).isEmpty
  | c :: cs => !(r.ends ⟨prev, c :: cs⟩).isEmpty || r.searchFrom (some c) cs

def search (r : Pattern) (text : List Char) : Bool := r.searchFrom none text

end Pattern
