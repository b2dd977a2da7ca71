import Mathlib
import AxonGateway.Cedar.Syntax

/-!
# The policy parser

`parsePolicy` reads one statement with unanchored searches. Each pattern of the source is a
matcher on the text in front of it; `scopeUnsupported` also looks at the character before,
for the word boundaries of its patterns.
-/

namespace Cedar

open PyText TextScan

/-! ### Statements -/

structure Condition where
  attr : List Char
  value : List Char
  negated : Bool
  deriving DecidableEq

structure Statement where
  effect : Effect
  action : Option (List Char)
  conditionsWhen : List Condition
  conditionsUnless : List Condition
  deriving DecidableEq

/-- The fields of the request context that a policy reads: the roles, and the string that
`getattr` finds under a name. -/
structure Context where
  roles : List (List Char)
  getattr : List Char → Option (List Char)

def attrAlias (attr : List Char) : List Char :=
  if attr = "project".toList then "project_id".toList
  else if attr = "tenant".toList then "tenant_id".toList
  else if attr = "user".toList then "user_id".toList
  else attr

def principalAttr (ctx : Context) (attr : List Char) : Option (List Char) :=
  if attr = "role".toList then none else ctx.getattr (attrAlias attr)

def Condition.holds (c : Condition) (ctx : Context) : Bool :=
  let equal :=
    if c.attr = "role".toList then decide (c.value ∈ ctx.roles)
    else decide (principalAttr ctx c.attr = some c.value)
  if c.negated then !equal else equal

def Statement.matches (s : Statement) (ctx : Context) (action : List Char) : Bool :=
  if s.action ≠ none ∧ s.action ≠ some action then false
  else if ¬ s.conditionsWhen.all (·.holds ctx) then false
  else if s.conditionsUnless ≠ [] ∧ s.conditionsUnless.all (·.holds ctx) then false
  else true

/-! ### Patterns -/

variable (W : WordClass)

/-- The text of a quoted literal, which has at least one character. -/
def quoted (cs : List Char) : Option (List Char) :=
  (expect ['"'] cs).bind fun r ↦ (before '"' r).bind fun p ↦
    if p.1 = [] then none else some p.1

def actionAt (cs : List Char) : Option (List Char) :=
  (expect "action".toList cs).bind fun r ↦ (expect "==".toList (skip r)).bind fun r ↦
    (expect "Action::".toList (skip r)).bind quoted

/-- The comparison operator, and whether it negates. -/
def operatorAt (cs : List Char) : Option (Bool × List Char) :=
  ((expect "==".toList cs).map (false, ·)).or ((expect "!=".toList cs).map (true, ·))

def condAt (cs : List Char) : Option Condition :=
  (expect "principal.".toList cs).bind fun r ↦
    let attr := r.takeWhile W.isWord
    if attr = [] then none
    else (operatorAt (skip (r.dropWhile W.isWord))).bind fun op ↦
      (quoted (skip op.2)).map fun value ↦ ⟨attr, value, op.1⟩

/-- What the parentheses after the effect hold, up to the first closing one. -/
def scopeAt (effect : Effect) (text : List Char) : Option (List Char) :=
  (expect effect.chars text).bind fun r ↦ (expect ['('] (skip r)).bind fun r ↦
    (before ')' r).map Prod.fst

def blockAt (k : Keyword) (cs : List Char) : Option (List Char) :=
  (opens k.chars cs).bind fun r ↦ (before '}' r).map Prod.fst

/-! ### Scope clauses that are refused -/

def boundary (prev next : Option Char) : Bool :=
  prev.any W.isWord != next.any W.isWord

/-- The last character of the name and the white space after it. -/
def lastBefore (name r : List Char) : Option Char :=
  (name ++ r.takeWhile isSpace).getLast?

/-- The word `in` and the boundary after it. -/
def inWord (cs : List Char) : Bool :=
  match expect "in".toList cs with
  | none => false
  | some r => boundary W (some 'n') r.head?

/-- A boundary, the variable, and `==` or a boundary and the word `in`. -/
def narrowsAt (name : List Char) (prev : Option Char) (cs : List Char) : Bool :=
  match expect name cs with
  | none => false
  | some r => boundary W prev cs.head? &&
      ((expect "==".toList (skip r)).isSome ||
        boundary W (lastBefore name r) (skip r).head? && inWord W (skip r))

/-- A boundary, `action`, white space and the word `in`. -/
def actionInAt (prev : Option Char) (cs : List Char) : Bool :=
  match expect "action".toList cs with
  | none => false
  | some r => boundary W prev cs.head? && r.head?.any isSpace && inWord W (skip r)

def searchAfter (m : Option Char → List Char → Bool) : Option Char → List Char → Bool
  | prev, [] => m prev []
  | prev, c :: cs => m prev (c :: cs) || searchAfter m (some c) cs

def scopeUnsupported (scope : List Char) : Bool :=
  searchAfter (narrowsAt W "principal".toList) none scope ||
    searchAfter (narrowsAt W "resource".toList) none scope ||
    searchAfter (actionInAt W) none scope

/-! ### The parser -/

def parseParts : List (List Char) → Option (List Condition)
  | [] => some []
  | part :: parts =>
    if strip part = [] then parseParts parts
    else (search (condAt W) (strip part)).bind fun c ↦ (parseParts parts).map (c :: ·)

def parseConditions (clause : List Char) : Option (List Condition) :=
  parseParts W (splitDouble '&' clause)

def trim (text : List Char) : List Char := strip ((strip text).rdropWhile (· == ';'))

def effectOf (text : List Char) : Option Effect :=
  if (expect "permit".toList text).isSome then some .permit
  else if (expect "forbid".toList text).isSome then some .forbid
  else none

/-- The conditions of the first block of a keyword; there may be no such block. -/
def conditionsOf (k : Keyword) (text : List Char) : Option (List Condition) :=
  match search (blockAt k) text with
  | none => some []
  | some clause => parseConditions W clause

def parsePolicy (t : List Char) : Option Statement :=
  let text := trim t
  (effectOf text).bind fun effect ↦ (scopeAt effect text).bind fun scope ↦
    if scopeUnsupported W scope then none
    else (conditionsOf W .whenKey text).bind fun conditionsWhen ↦
      (conditionsOf W .unlessKey text).map fun conditionsUnless ↦
        ⟨effect, search actionAt scope, conditionsWhen, conditionsUnless⟩

/-- The checks of the parser that refuse a text. -/
inductive Rejected (t : List Char) : Prop
  | effect (h : effectOf (trim t) = none)
  | scope (e : Effect) (he : effectOf (trim t) = some e) (h : scopeAt e (trim t) = none)
  | unsupported (e : Effect) (scope : List Char) (he : effectOf (trim t) = some e)
      (hs : scopeAt e (trim t) = some scope) (h : scopeUnsupported W scope = true)
  | body (k : Keyword) (clause : List Char) (hb : search (blockAt k) (trim t) = some clause)
      (h : parseConditions W clause = none)

theorem conditionsOf_eq_none {k : Keyword} {text : List Char} :
    conditionsOf W k text = none ↔
      ∃ clause, search (blockAt k) text = some clause ∧ parseConditions W clause = none := by
  rw [conditionsOf]
  cases search (blockAt k) text with
  | none => simp
  | some clause => simp

theorem parsePolicy_eq_none {t : List Char} : parsePolicy W t = none ↔ Rejected W t := by
  constructor
  · intro h
    rw [parsePolicy] at h
    cases he : effectOf (trim t) with
    | none => exact .effect he
    | some e =>
        cases hs : scopeAt e (trim t) with
        | none => exact .scope e he hs
        | some scope =>
            by_cases hu : scopeUnsupported W scope = true
            · exact .unsupported e scope he hs hu
            · cases hw : conditionsOf W .whenKey (trim t) with
              | none =>
                  obtain ⟨clause, hb, hc⟩ := (conditionsOf_eq_none W).mp hw
                  exact .body .whenKey clause hb hc
              | some cw =>
                  cases hn : conditionsOf W .unlessKey (trim t) with
                  | none =>
                      obtain ⟨clause, hb, hc⟩ := (conditionsOf_eq_none W).mp hn
                      exact .body .unlessKey clause hb hc
                  | some cu => simp [he, hs, hu, hw, hn] at h
  · rintro (h | ⟨e, he, h⟩ | ⟨e, scope, he, hs, h⟩ | ⟨k, clause, hb, h⟩)
    · simp [parsePolicy, h]
    · simp [parsePolicy, he, h]
    · simp [parsePolicy, he, hs, h]
    · have hnone := (conditionsOf_eq_none W).mpr ⟨clause, hb, h⟩
      rw [parsePolicy, Option.bind_eq_none_iff]
      intro e _
      rw [Option.bind_eq_none_iff]
      intro scope _
      cases k with
      | whenKey => simp [hnone]
      | unlessKey => simp [hnone]

end Cedar
