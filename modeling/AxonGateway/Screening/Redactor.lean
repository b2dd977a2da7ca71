import AxonGateway.Screening.Messages

/-!
# Redaction of personal data

Every match of an active pattern is replaced by a token, and a mapping that all the messages of
a request share remembers which token stands for which text.
-/

namespace Screening

open PyValue

/-- The settings of a policy that the redactor reads. -/
structure RedactionPolicy where
  piiRedactionEnabled : Bool
  piiReinject : Bool
  piiRedactTypes : List Text

/-- A stretch of a text and the kind of data that was found there. -/
structure Span where
  start : ℕ
  stop : ℕ
  piiType : Text

structure RedactionMapping where
  forward : List (Text × Text)
  counters : List (Text × ℕ)
  dedup : List (Text × Text)
  reversible : Bool

def RedactionMapping.empty (reversible : Bool) : RedactionMapping := ⟨[], [], [], reversible⟩

/-- The redactor of a deployment: the patterns by type, each with the matches that `finditer`
gives for a text, and the defaults from the environment. -/
structure PIIRedactor extends Unicode where
  piiPatterns : Text → Option (Text → List (ℕ × ℕ))
  envDefaultEnabled : Bool
  envDefaultTypes : List Text

namespace RedactionMapping

variable (U : Unicode)

/-- `add` -/
def add (m : RedactionMapping) (piiType original : Text) : Text × RedactionMapping :=
  match m.dedup.lookup original with
  | some token => (token, m)
  | none =>
      let count := (m.counters.lookup piiType).getD 0 + 1
      let token := '[' :: (U.upper piiType ++ '_' :: ((toString count).toList ++ [']']))
      (token,
        { m with
          counters := set m.counters piiType count
          dedup := set m.dedup original token
          forward := if m.reversible then set m.forward token original else m.forward })

/-- `seal` -/
def «seal» (m : RedactionMapping) : RedactionMapping :=
  if m.reversible then m else { m with dedup := [] }

end RedactionMapping

namespace PIIRedactor

variable (R : PIIRedactor)

/-- `effective_policy` -/
def effectivePolicy (policy : RedactionPolicy) : RedactionPolicy :=
  if policy.piiRedactionEnabled || !R.envDefaultEnabled then policy
  else { policy with
    piiRedactionEnabled := true
    piiRedactTypes := if policy.piiRedactTypes = [] then R.envDefaultTypes
      else policy.piiRedactTypes }

/-- `_regex_spans` -/
def regexSpans (text : Text) (activeTypes : List Text) : List Span :=
  activeTypes.flatMap fun piiType ↦
    match R.piiPatterns piiType with
    | none => []
    | some find => (find text).map fun m ↦ ⟨m.1, m.2, piiType⟩

/-- The spans that do not start before the last one kept has ended. -/
def keepFrom (lastEnd : ℤ) : List Span → List Span
  | [] => []
  | s :: spans =>
      if s.start < lastEnd then keepFrom lastEnd spans else s :: keepFrom s.stop spans

/-- `_drop_overlaps` -/
def dropOverlaps (spans : List Span) : List Span :=
  let ordered := spans.mergeSort fun s s' ↦
    s.start < s'.start || (s.start = s'.start && s'.stop - s'.start ≤ s.stop - s.start)
  (keepFrom (-1) ordered).mergeSort fun s s' ↦ s'.start ≤ s.start

/-- One turn of the loop of `_apply_spans`. -/
def applySpan (acc : Text × RedactionMapping) (s : Span) : Text × RedactionMapping :=
  let (token, m) := acc.2.add R.toUnicode s.piiType ((acc.1.drop s.start).take (s.stop - s.start))
  (acc.1.take s.start ++ token ++ acc.1.drop s.stop, m)

/-- `_redact_str` -/
def redactStr (text : Text) (activeTypes : List Text) (m : RedactionMapping) :
    Text × RedactionMapping :=
  (dropOverlaps (R.regexSpans text activeTypes)).foldl R.applySpan (text, m)

/-- The key of a part under which its text is. -/
def textKey (fields : Fields) : Option (Text × Text) :=
  match fields.lookup "text".toList with
  | some (.str text) => some ("text".toList, text)
  | _ =>
      match fields.lookup "content".toList with
      | some (.str text) => some ("content".toList, text)
      | _ => none

/-- One turn of the loop over the parts of a content. -/
def redactPart (activeTypes : List Text) (part : Value) (m : RedactionMapping) :
    Value × RedactionMapping :=
  match part with
  | .obj fields =>
      match textKey fields with
      | some (key, text) =>
          let (redacted, m) := R.redactStr text activeTypes m
          (.obj (set fields key (.str redacted)), m)
      | none => (part, m)
  | _ => (part, m)

/-- A loop that rebuilds a list and threads the mapping through it. -/
def eachWith {α : Type} (f : α → RedactionMapping → α × RedactionMapping) :
    List α → RedactionMapping → List α × RedactionMapping
  | [], m => ([], m)
  | x :: xs, m =>
      let (y, m) := f x m
      let (ys, m) := eachWith f xs m
      (y :: ys, m)

/-- `_redact_content` -/
def redactContent (activeTypes : List Text) (content : Value) (m : RedactionMapping) :
    Value × RedactionMapping :=
  match content with
  | .str text =>
      let (redacted, m) := R.redactStr text activeTypes m
      (.str redacted, m)
  | .arr parts =>
      let (redacted, m) := eachWith (R.redactPart activeTypes) parts m
      (.arr redacted, m)
  | _ => (content, m)

/-- One turn of the loop of `redact_messages`. -/
def redactMessage (activeTypes : List Text) (msg : Message) (m : RedactionMapping) :
    Message × RedactionMapping :=
  match msg.content with
  | none => (msg, m)
  | some content =>
      let (redacted, m) := R.redactContent activeTypes content m
      (msg.setContent redacted, m)

/-- `redact_messages` -/
def redactMessages (msgs : List Message) (policy : RedactionPolicy) :
    List Message × RedactionMapping :=
  let policy := R.effectivePolicy policy
  let mapping := RedactionMapping.empty policy.piiReinject
  if !policy.piiRedactionEnabled || policy.piiRedactTypes.isEmpty then (msgs, mapping)
  else
    let (redacted, mapping) := eachWith (R.redactMessage policy.piiRedactTypes) msgs mapping
    (redacted, mapping.seal)

variable {R}

/-- A text is redacted alike as the only part of a content. -/
theorem redactContent_onePart (activeTypes : List Text) (text : Text) (m : RedactionMapping) :
    R.redactContent activeTypes (onePart text) m =
      (onePart (R.redactStr text activeTypes m).1, (R.redactStr text activeTypes m).2) := by
  have hkey : textKey [("type".toList, .str "text".toList), ("text".toList, .str text)] =
      some ("text".toList, text) := by rfl
  simp only [redactContent, onePart, eachWith, redactPart, hkey]
  rfl

theorem redactContent_ne (activeTypes : List Text) {content : Value}
    (h : ∀ text, content ≠ .str text) (m : RedactionMapping) (text : Text) :
    (R.redactContent activeTypes content m).1 ≠ .str text := by
  cases content with
  | str text => exact absurd rfl (h text)
  | arr parts => simp [redactContent]
  | null | bool | number | nonFinite | obj => simp [redactContent]

theorem redactMessage_carry (activeTypes : List Text) (msg : Message) (m : RedactionMapping) :
    R.redactMessage activeTypes msg.carry m =
      ((R.redactMessage activeTypes msg m).1.carry, (R.redactMessage activeTypes msg m).2) := by
  by_cases h : ∃ text, msg.content = some (.str text)
  · obtain ⟨text, hc⟩ := h
    rw [Message.carry_of_content hc]
    simp only [redactMessage, Message.content_setContent, hc, redactContent_onePart]
    rw [redactContent, Message.carry_of_content (Message.content_setContent _ _)]
    simp only [Message.setContent_setContent]
  · have hne : ∀ text, msg.content ≠ some (.str text) := not_exists.mp h
    rw [Message.carry_of_ne hne]
    unfold redactMessage
    cases hc : msg.content with
    | none => rw [Message.carry_of_ne hne]
    | some content =>
        have hstr : ∀ text, content ≠ .str text := fun text ht ↦ hne text (by rw [hc, ht])
        refine Prod.ext (Message.carry_of_ne fun text ht ↦ ?_).symm rfl
        rw [Message.content_setContent] at ht
        exact redactContent_ne activeTypes hstr m text (Option.some.inj ht)

theorem eachWith_modify {α : Type} {f : α → RedactionMapping → α × RedactionMapping} {g : α → α}
    (hg : ∀ x m, f (g x) m = (g (f x m).1, (f x m).2)) (xs : List α) (i : ℕ)
    (m : RedactionMapping) :
    eachWith f (xs.modify i g) m = ((eachWith f xs m).1.modify i g, (eachWith f xs m).2) := by
  induction xs generalizing i m with
  | nil => simp [eachWith]
  | cons x xs ih =>
      cases i with
      | zero => simp [eachWith, hg]
      | succ i => simp [eachWith, ih]

/-- How a text is carried makes no difference to the redactor. -/
theorem redactMessages_carryAt (msgs : List Message) (i : ℕ) (policy : RedactionPolicy) :
    R.redactMessages (carryAt msgs i) policy =
      (carryAt (R.redactMessages msgs policy).1 i, (R.redactMessages msgs policy).2) := by
  unfold redactMessages carryAt
  dsimp only
  split_ifs
  · rfl
  · rw [eachWith_modify (redactMessage_carry _)]

end PIIRedactor

/-- The Unicode database as far as ASCII goes. -/
def asciiUnicode : Unicode where
  lowerChar c := if 'A' ≤ c ∧ c ≤ 'Z' then [Char.ofNat (c.toNat + 32)] else [c]
  cased c := ('A' ≤ c && c ≤ 'Z') || ('a' ≤ c && c ≤ 'z')
  caseIgnorable c := c == apostrophe || c == '.' || c == ':' || c == '^' || c.toNat == 0x60
  isPrintable c := 0x20 ≤ c.toNat && c.toNat < 0x7f
  upper text := text.map fun c ↦ if 'a' ≤ c ∧ c ≤ 'z' then Char.ofNat (c.toNat - 32) else c
  nfkd text := text
  isSpace c := (9 ≤ c.toNat && c.toNat ≤ 13) || (28 ≤ c.toNat && c.toNat ≤ 32)
  isWord c := ('A' ≤ c && c ≤ 'Z') || ('a' ≤ c && c ≤ 'z') || ('0' ≤ c && c ≤ '9') || c == '_'
  sameLetter c d := c == d ||
    (('A' ≤ c && c ≤ 'Z') && c.toNat + 32 == d.toNat) ||
      (('a' ≤ c && c ≤ 'z') && d.toNat + 32 == c.toNat)
  lowerChar_space := by decide
  cased_space := by decide
  caseIgnorable_space := by decide

/-- A redactor that knows no pattern. -/
def blankRedactor : PIIRedactor :=
  { asciiUnicode with
    piiPatterns := fun _ ↦ none, envDefaultEnabled := false, envDefaultTypes := [] }

end Screening
