import AxonGateway.Lib.PyLower
import AxonGateway.Lib.Occurrence

/-!
# Guardrail rules

A project's rules are searched for in one text, which is collected from the messages of a
request or from the choices of a response.
-/

namespace Screening

open PyValue

/-- A rule as it is stored; `none` stands for a name or a pattern that is not a string. -/
structure GuardrailRule where
  name : Option Text
  ruleType : String
  pattern : Option Text
  action : String
  appliesTo : String
  deriving DecidableEq

structure GuardrailResult where
  passed : Bool
  violatedRules : List Text
  message : Option Text
  deriving DecidableEq

def allowedGuardrailRuleTypes : List String := ["keyword_block", "regex_match", "content_category"]

def allowedGuardrailActions : List String := ["block", "warn", "redact"]

def allowedGuardrailTargets : List String := ["request", "response", "both"]

/-- What the engine uses: the Unicode database, and a search for a regular expression, which
gives nothing where the expression is invalid or the search takes too long. -/
structure GuardrailEngine extends Unicode where
  search : Text → Text → Option Bool

namespace GuardrailRule

/-- `_valid_rule` -/
def valid (rule : GuardrailRule) : Bool :=
  (rule.name.any fun name ↦ !name.isEmpty) && allowedGuardrailRuleTypes.contains rule.ruleType &&
    allowedGuardrailActions.contains rule.action &&
      allowedGuardrailTargets.contains rule.appliesTo &&
        rule.pattern.any fun pattern ↦ !pattern.isEmpty

/-- The name that is reported. -/
def shownName (rule : GuardrailRule) : Text :=
  match rule.name with
  | some (c :: cs) => c :: cs
  | _ => "invalid_guardrail_rule".toList

def appliesToTarget (rule : GuardrailRule) (target : String) : Bool :=
  rule.appliesTo = target || rule.appliesTo = "both"

end GuardrailRule

namespace GuardrailEngine

variable (E : GuardrailEngine)

/-- `pattern.lower() in text.lower()` -/
def contains (text pattern : Text) : Bool := E.lower pattern <:+: E.lower text

/-- `_matches`; nothing where an exception is raised. -/
def «matches» (text : Text) (rule : GuardrailRule) : Option Bool :=
  let pattern := rule.pattern.getD []
  if rule.ruleType = "keyword_block" then some (E.contains text pattern)
  else if rule.ruleType = "regex_match" then E.search pattern text
  else if rule.ruleType = "content_category" then some (E.contains text pattern)
  else none

/-- What the loop over the rules has collected. -/
structure Findings where
  violatedRules : List Text
  blockingNames : List Text

/-- One turn of the loop of `_evaluate`. -/
def check (text : Text) (target : String) (found : Findings) (rule : GuardrailRule) : Findings :=
  let both : Findings :=
    ⟨found.violatedRules ++ [rule.shownName], found.blockingNames ++ [rule.shownName]⟩
  if !rule.valid then both
  else if !rule.appliesToTarget target then found
  else
    match E.matches text rule with
    | none => both
    | some false => found
    | some true =>
        if rule.action = "block" then both
        else { found with violatedRules := found.violatedRules ++ [rule.shownName] }

/-- `_evaluate` -/
def evaluate (text : Text) (rules : List GuardrailRule) (context : Text) (target : String) :
    GuardrailResult :=
  let found := rules.foldl (E.check text target) ⟨[], []⟩
  if found.violatedRules.isEmpty then ⟨true, [], none⟩
  else if found.blockingNames.isEmpty then ⟨true, found.violatedRules, none⟩
  else ⟨false, found.violatedRules,
    some (context ++ " blocked by guardrail rules: ".toList ++
      joined ", ".toList found.blockingNames)⟩

/-- The rule keeps the text from passing. -/
def blocks (text : Text) (target : String) (rule : GuardrailRule) : Bool :=
  !rule.valid || (rule.appliesToTarget target &&
    match E.matches text rule with
    | none => true
    | some found => found && rule.action = "block")

variable {E}

theorem check_violated {text : Text} {target : String} {found : Findings} {rule : GuardrailRule}
    (h : found.violatedRules = [] → found.blockingNames = []) :
    (E.check text target found rule).violatedRules = [] →
      (E.check text target found rule).blockingNames = [] := by
  unfold check
  dsimp only
  cases rule.valid with
  | false => simp
  | true =>
      cases rule.appliesToTarget target with
      | false => exact h
      | true =>
          cases hm : E.matches text rule with
          | none => simp
          | some found =>
              cases found with
              | false => exact h
              | true => by_cases hb : rule.action = "block" <;> simp [hb]

theorem check_blockingNames {text : Text} {target : String} {found : Findings}
    {rule : GuardrailRule} :
    (E.check text target found rule).blockingNames.isEmpty =
      (found.blockingNames.isEmpty && !E.blocks text target rule) := by
  unfold check blocks
  dsimp only
  cases rule.valid with
  | false => simp
  | true =>
      cases rule.appliesToTarget target with
      | false => simp
      | true =>
          cases hm : E.matches text rule with
          | none => simp
          | some found =>
              cases found with
              | false => simp
              | true => by_cases hb : rule.action = "block" <;> simp [hb]

theorem foldl_check (text : Text) (target : String) (rules : List GuardrailRule) (found : Findings) :
    ((rules.foldl (E.check text target) found).blockingNames.isEmpty =
      (found.blockingNames.isEmpty && !rules.any (E.blocks text target))) ∧
    ((found.violatedRules = [] → found.blockingNames = []) →
      (rules.foldl (E.check text target) found).violatedRules = [] →
        (rules.foldl (E.check text target) found).blockingNames = []) := by
  induction rules generalizing found with
  | nil => simp
  | cons rule rules ih =>
      obtain ⟨hblocking, hviolated⟩ := ih (E.check text target found rule)
      constructor
      · rw [List.foldl_cons, hblocking, check_blockingNames, List.any_cons, Bool.not_or,
          Bool.and_assoc]
      · intro h
        exact hviolated (check_violated h)

/-- A text passes when no rule blocks it. -/
theorem evaluate_passed (text : Text) (rules : List GuardrailRule) (context : Text)
    (target : String) :
    (E.evaluate text rules context target).passed = !rules.any (E.blocks text target) := by
  obtain ⟨hblocking, hviolated⟩ := foldl_check (E := E) text target rules ⟨[], []⟩
  simp only [List.isEmpty_nil, Bool.true_and] at hblocking
  rw [← hblocking]
  unfold evaluate
  dsimp only
  split_ifs with hv hb
  · rw [hviolated (fun _ ↦ rfl) (List.isEmpty_iff.mp hv), List.isEmpty_nil]
  · exact hb.symm
  · simpa using hb

end GuardrailEngine

end Screening
