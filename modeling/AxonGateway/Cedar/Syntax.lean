import Mathlib
import AxonGateway.Lib.TextScan

/-!
# The documented policy subset

A policy is one `permit` or `forbid` statement over a bare principal and resource, with an
optional action equality and optional `when` and `unless` bodies of `principal.attr`
comparisons joined by `&&`. `StatementText` says which texts spell a policy, and `Applies`
what the policy means for a principal and an action.
-/

namespace Cedar

open PyText TextScan

/-- The identifiers of the subset are runs of word characters, which no delimiter is. -/
structure WordClass where
  isWord : Char → Bool
  not_space : ∀ c, isSpace c = true → isWord c = false
  not_delimiter : ∀ c ∈ "(){}=!&\"".toList, isWord c = false

/-- The word characters among the ASCII ones. -/
def asciiWord : WordClass where
  isWord c :=
    let n := c.toNat
    (48 ≤ n && n ≤ 57) || (65 ≤ n && n ≤ 90) || n == 95 || (97 ≤ n && n ≤ 122)
  not_space c h := by
    simp only [isSpace, Bool.or_eq_true, Bool.and_eq_true, decide_eq_true_eq, beq_iff_eq] at h
    simp only [Bool.or_eq_false_iff, Bool.and_eq_false_iff, decide_eq_false_iff_not,
      beq_eq_false_iff_ne, ne_eq]
    omega
  not_delimiter := by simp

inductive Effect where
  | permit
  | forbid
  deriving DecidableEq

structure Clause where
  attr : List Char
  negated : Bool
  value : List Char
  deriving DecidableEq

/-- An absent body is the empty list; a body that is present has a clause. -/
structure Policy where
  effect : Effect
  action : Option (List Char)
  whenBody : List Clause
  unlessBody : List Clause
  deriving DecidableEq

/-! ### Meaning -/

/-- What a principal shows a policy: the roles it holds, and its scalar attributes. -/
structure Principal where
  roles : List (List Char)
  scalar : List Char → Option (List Char)

def Principal.Has (p : Principal) (attr value : List Char) : Prop :=
  if attr = "role".toList then value ∈ p.roles else p.scalar attr = some value

def Clause.Holds (c : Clause) (p : Principal) : Prop :=
  if c.negated then ¬ p.Has c.attr c.value else p.Has c.attr c.value

structure Policy.Applies (pol : Policy) (p : Principal) (action : List Char) : Prop where
  scope : ∀ a, pol.action = some a → a = action
  whenHolds : ∀ c ∈ pol.whenBody, c.Holds p
  noException : pol.unlessBody ≠ [] → ∃ c ∈ pol.unlessBody, ¬ c.Holds p

/-! ### Texts -/

inductive Keyword where
  | whenKey
  | unlessKey

def Keyword.chars : Keyword → List Char
  | .whenKey => "when".toList
  | .unlessKey => "unless".toList

@[simp] theorem Keyword.chars_whenKey : Keyword.whenKey.chars = "when".toList := rfl

@[simp] theorem Keyword.chars_unlessKey : Keyword.unlessKey.chars = "unless".toList := rfl

def Effect.chars : Effect → List Char
  | .permit => "permit".toList
  | .forbid => "forbid".toList

@[simp] theorem Effect.chars_permit : Effect.permit.chars = "permit".toList := rfl

@[simp] theorem Effect.chars_forbid : Effect.forbid.chars = "forbid".toList := rfl

def Clause.operator (c : Clause) : List Char := if c.negated then "!=".toList else "==".toList

/-- A string literal of the subset has no quote and no escape in it. -/
def Literal (v : List Char) : Prop := '"' ∉ v ∧ '\\' ∉ v

variable (W : WordClass)

inductive ClauseText : Clause → List Char → Prop
  | mk {c : Clause} {g g' : List Char} (word : ∀ x ∈ c.attr, W.isWord x = true)
      (named : c.attr ≠ []) (literal : Literal c.value) (gap : Gap g) (gap' : Gap g') :
      ClauseText c ("principal.".toList ++ (c.attr ++ (g ++ (c.operator ++
        (g' ++ '"' :: (c.value ++ ['"']))))))

inductive BodyText : List Clause → List Char → Prop
  | one {c : Clause} {t g g' : List Char} (clause : ClauseText W c t) (gap : Gap g)
      (gap' : Gap g') : BodyText [c] (g ++ t ++ g')
  | and {c : Clause} {cs : List Clause} {t b g g' : List Char} (clause : ClauseText W c t)
      (gap : Gap g) (gap' : Gap g') (body : BodyText cs b) :
      BodyText (c :: cs) (g ++ t ++ g' ++ '&' :: '&' :: b)

inductive BlockText (k : Keyword) : List Clause → List Char → Prop
  | absent : BlockText k [] []
  | body {cs : List Clause} {b g g' : List Char} (gap : Gap g) (gap' : Gap g')
      (body : BodyText W cs b) : BlockText k cs (g ++ k.chars ++ g' ++ '{' :: (b ++ ['}']))

inductive ActionText : Option (List Char) → List Char → Prop
  | bare : ActionText none "action".toList
  | equality {a g g' : List Char} (literal : Literal a) (gap : Gap g) (gap' : Gap g') :
      ActionText (some a) ("action".toList ++ g ++ "==".toList ++ g' ++ "Action::".toList ++
        '"' :: (a ++ ['"']))

/-- What stands between the parentheses. -/
inductive ScopeText : Option (List Char) → List Char → Prop
  | mk {a : Option (List Char)} {t g₁ g₂ g₃ g₄ g₅ g₆ : List Char} (action : ActionText a t)
      (h₁ : Gap g₁) (h₂ : Gap g₂) (h₃ : Gap g₃) (h₄ : Gap g₄) (h₅ : Gap g₅) (h₆ : Gap g₆) :
      ScopeText a (g₁ ++ "principal".toList ++ g₂ ++ [','] ++ g₃ ++ t ++
        (g₄ ++ [','] ++ g₅ ++ "resource".toList ++ g₆))

/-- The two bodies stand in either order. -/
inductive BodiesText (p : Policy) : List Char → Prop
  | whenFirst {t t' : List Char} (first : BlockText W .whenKey p.whenBody t)
      (second : BlockText W .unlessKey p.unlessBody t') : BodiesText p (t ++ t')
  | unlessFirst {t t' : List Char} (first : BlockText W .unlessKey p.unlessBody t)
      (second : BlockText W .whenKey p.whenBody t') : BodiesText p (t ++ t')

inductive CoreText (p : Policy) : List Char → Prop
  | mk {g scope bodies : List Char} (gap : Gap g) (scopeText : ScopeText p.action scope)
      (bodiesText : BodiesText W p bodies) :
      CoreText p (p.effect.chars ++ g ++ '(' :: (scope ++ ')' :: bodies))

/-- One statement, with white space around it and at most one semicolon at its end. -/
inductive StatementText (p : Policy) : List Char → Prop
  | plain {t g g' : List Char} (core : CoreText W p t) (gap : Gap g) (gap' : Gap g') :
      StatementText p (g ++ t ++ g')
  | semicolon {t g g' g'' : List Char} (core : CoreText W p t) (gap : Gap g) (gap' : Gap g')
      (gap'' : Gap g'') : StatementText p (g ++ (t ++ g' ++ [';']) ++ g'')

/-! ### Literals that hold delimiters -/

/-- No block seems to open inside the literal. -/
def Quiet (v : List Char) : Prop := ∀ k : Keyword, KeyFree k.chars v

/-- The literals of the policy do not spell the delimiters the text is cut at. -/
structure Policy.Plain (p : Policy) : Prop where
  action : ∀ a, p.action = some a → a ≠ [] ∧ ')' ∉ a ∧ Quiet a
  clause : ∀ c ∈ p.whenBody ++ p.unlessBody, c.value ≠ [] ∧ '}' ∉ c.value ∧
    NoDouble '&' c.value ∧ Quiet c.value

end Cedar
