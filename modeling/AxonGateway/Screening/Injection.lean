import AxonGateway.Lib.Pattern
import AxonGateway.Screening.Messages

/-!
# Prompt injection

A text has the largest weight of the patterns that are found in it, and a list of messages the
largest weight of its texts.
-/

namespace Screening

open PyValue

inductive ThreatLevel where
  | none
  | low
  | medium
  | high
  | critical
  deriving DecidableEq

structure DetectionResult where
  threatLevel : ThreatLevel
  detectedPatterns : Finset String
  score : ℚ
  shouldBlock : Bool
  deriving DecidableEq

section Patterns

variable (U : Unicode)

open Pattern

def spaces : Pattern := star (char U.isSpace)

def someSpaces : Pattern := plus (char U.isSpace)

/-- The characters one after another, each as `letter` has it. -/
def spelled (letter : Char → Pattern) (c : Char) : List Char → Pattern
  | [] => letter c
  | d :: cs => (letter c).seq (spelled letter d cs)

def literal (letter : Char → Pattern) (word : String) : Pattern :=
  match word.toList with
  | [] => boundary fun _ ↦ false
  | c :: cs => spelled letter c cs

/-- A literal character under `(?i)`. -/
def anyCase (c : Char) : Pattern := char (U.sameLetter c)

/-- A word under `(?i)`. -/
def word (w : String) : Pattern := literal (anyCase U) w

/-- One of the words under `(?i)`. -/
def wordOf (w : String) (ws : List String) : Pattern := (word U w).alts (ws.map (word U))

/-- Two words under `(?i)` with white space between them. -/
def phrase (w w' : String) : Pattern := (word U w).seq ((someSpaces U).seq (word U w'))

/-- A character class under `(?i)`. -/
def classOf (members : List Char) : Pattern := char fun c ↦ members.any (U.sameLetter · c)

def charRange (first last : Char) : List Char :=
  (List.range (last.toNat + 1 - first.toNat)).map fun i ↦ Char.ofNat (first.toNat + i)

def base64Chars : List Char :=
  charRange 'A' 'Z' ++ charRange 'a' 'z' ++ charRange '0' '9' ++ ['+', '/', '=']

def roleOverrideRe : Pattern :=
  let sp := someSpaces U
  (wordOf U "ignore" ["forget", "disregard"]).seq <| sp.seq <|
    optional ((word U "all").seq sp) <|
      (wordOf U "previous" ["prior", "above", "earlier"]).seq <| sp.seq <|
        wordOf U "instructions" ["rules", "guidelines", "prompts", "context"]

def youAreNowRe : Pattern :=
  let sp := someSpaces U
  (word U "you").seq <| sp.seq <| (word U "are").seq <| sp.seq <| (word U "now").seq <| sp.seq <|
    (wordOf U "a" ["an", "the"]).seq <| sp.seq <| plus (char U.isWord)

def modeRe : Pattern :=
  (phrase U "new" "instructions").alts [phrase U "override" "mode", phrase U "admin" "mode",
    phrase U "developer" "mode", phrase U "DAN" "mode"]

def revealRe : Pattern :=
  let hidden := (phrase U "system" "prompt").alts [word U "instructions", word U "rules",
    phrase U "initial" "prompt", phrase U "hidden" "prompt"]
  (wordOf U "repeat" ["show", "display", "reveal", "print", "output"]).seq <|
    (someSpaces U).seq <| optional (wordOf U "your" ["the", "all"]) <| (spaces U).seq hidden

def whatAreRe : Pattern :=
  let sp := someSpaces U
  let hidden := (word U "instructions").alts [word U "rules", phrase U "system" "prompt",
    phrase U "initial" "prompt"]
  (word U "what").seq <| sp.seq <| (wordOf U "are" ["is", "were"]).seq <| sp.seq <|
    (wordOf U "your" ["the"]).seq <| sp.seq hidden

def codeFenceRe : Pattern :=
  let tick := lit (Char.ofNat 96)
  tick.seq <| tick.seq <| tick.seq <| (spaces U).seq <|
    optional (lit '\n') <| (spaces U).seq <|
      (literal lit "system").alts [literal lit "assistant", literal lit "ignore",
        literal lit "new instructions"]

def markupRe : Pattern :=
  (lit '<').seq <| optional (lit '/') <|
    ((literal lit "system").alts [literal lit "instructions", literal lit "context",
      literal lit "rules"]).seq (lit '>')

def encodedRe : Pattern :=
  (wordOf U "base64" ["decode", "eval", "exec"]).seq <| (spaces U).seq <|
    (classOf U ['(', '[', '{', ':']).seq <| (spaces U).seq <| atLeast 20 (classOf U base64Chars)

def separatorRe : Pattern :=
  (atLeast 10 (char fun c ↦ c == '-' || c == '=')).seq <| (spaces U).seq <|
    (literal lit "system").alts [literal lit "instructions", literal lit "new context",
      literal lit "admin"]

/-- `INJECTION_PATTERNS` -/
def injectionPatterns : List (String × Pattern × ℚ) :=
  [("role_override", roleOverrideRe U, 9 / 10),
   ("role_override", youAreNowRe U, 7 / 10),
   ("role_override", modeRe U, 8 / 10),
   ("extraction", revealRe U, 85 / 100),
   ("extraction", whatAreRe U, 7 / 10),
   ("delimiter_escape", codeFenceRe U, 75 / 100),
   ("delimiter_escape", markupRe, 6 / 10),
   ("encoded_payload", encodedRe U, 8 / 10),
   ("boundary_injection", separatorRe U, 65 / 100)]

end Patterns

/-- `THREAT_THRESHOLDS`, from the highest level down. -/
def threatThresholds : List (ThreatLevel × ℚ) :=
  [(.critical, 9 / 10), (.high, 7 / 10), (.medium, 5 / 10), (.low, 3 / 10)]

def threatLevelOf (score : ℚ) : ThreatLevel :=
  match threatThresholds.find? fun t ↦ t.2 ≤ score with
  | some t => t.1
  | none => .none

/-- The characters that `_normalize` removes. -/
def invisible (c : Char) : Bool :=
  let n := c.toNat
  (0x200b ≤ n && n ≤ 0x200f) || (0x2028 ≤ n && n ≤ 0x202f) || n == 0x2060 || n == 0xfeff

structure PromptInjectionDetector extends Unicode where
  blockThreshold : ℚ

namespace PromptInjectionDetector

variable (D : PromptInjectionDetector)

/-- `_normalize` -/
def normalize (text : Text) : Text := (D.nfkd text).filter fun c ↦ !invisible c

/-- The patterns that are found in a text. -/
def hits (text : Text) : List (String × Pattern × ℚ) :=
  (injectionPatterns D.toUnicode).filter fun p ↦ p.2.1.search (D.normalize text)

def result (detected : List String) (maxScore : ℚ) : DetectionResult where
  threatLevel := threatLevelOf maxScore
  detectedPatterns := detected.toFinset
  score := maxScore
  shouldBlock := D.blockThreshold ≤ maxScore

/-- `analyze` -/
def analyze (text : Text) : DetectionResult :=
  D.result ((D.hits text).map (·.1)) (((D.hits text).map (·.2.2)).foldl max 0)

/-- One turn of the loop of `analyze_messages`. -/
def analyzeMessage (found : Finset String × ℚ) (msg : Message) : Finset String × ℚ :=
  match msg.content.getD (.str []) with
  | .str text =>
      let result := D.analyze text
      (found.1 ∪ result.detectedPatterns, max found.2 result.score)
  | _ => found

/-- `analyze_messages` -/
def analyzeMessages (msgs : List Message) : DetectionResult :=
  let found := msgs.foldl D.analyzeMessage (∅, 0)
  ⟨threatLevelOf found.2, found.1, found.2, D.blockThreshold ≤ found.2⟩

/-- A message that blocks the request on its own. -/
def blocksMessage (msg : Message) : Bool :=
  match msg.content.getD (.str []) with
  | .str text => (D.analyze text).shouldBlock
  | _ => false

variable {D}

theorem foldl_analyzeMessage (msgs : List Message) (found : Finset String × ℚ) :
    D.blockThreshold ≤ (msgs.foldl D.analyzeMessage found).2 ↔
      D.blockThreshold ≤ found.2 ∨ ∃ msg ∈ msgs, D.blocksMessage msg = true := by
  induction msgs generalizing found with
  | nil => simp
  | cons msg msgs ih =>
      have hone : D.blockThreshold ≤ (D.analyzeMessage found msg).2 ↔
          D.blockThreshold ≤ found.2 ∨ D.blocksMessage msg = true := by
        unfold analyzeMessage blocksMessage
        split
        · simp [analyze, result]
        · simp
      rw [List.foldl_cons, ih, hone, List.exists_mem_cons_iff, or_assoc]

/-- A request is blocked when one of its messages is enough for it. -/
theorem analyzeMessages_shouldBlock (msgs : List Message) :
    (D.analyzeMessages msgs).shouldBlock = true ↔
      D.blockThreshold ≤ 0 ∨ ∃ msg ∈ msgs, D.blocksMessage msg = true := by
  rw [← foldl_analyzeMessage msgs (∅, 0)]
  simp [analyzeMessages]

end PromptInjectionDetector

end Screening
