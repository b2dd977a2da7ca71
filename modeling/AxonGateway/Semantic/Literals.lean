import AxonGateway.Lib.Pattern

/-!
# What two prompts have to agree on

Numbers, quoted texts and identifiers are compared exactly, polar words by the axis that they
lie on. What Unicode says about characters is a parameter.
-/

namespace Semantic

local instance literalTexts : LawfulBEq (List Char) := inferInstance

/-- What `\w`, `\d` and `str.lower` depend on. -/
structure Unicode where
  word : Char → Bool
  digit : Char → Bool
  lower : List Char → List Char

inductive Axis where
  | negation
  | onOff
  | lifecycle
  | timeRel
  | order
  | extremum
  | optionality
  deriving DecidableEq

inductive Side where
  | a
  | b
  deriving DecidableEq

def polarAxes : List Axis :=
  [.negation, .onOff, .lifecycle, .timeRel, .order, .extremum, .optionality]

def polarWords : Axis → Side → List String
  | .negation, .a => ["not", "no", "never", "none", "without", "cannot", "cant", "dont", "doesnt",
      "isnt", "arent", "wasnt", "werent", "shouldnt", "wouldnt", "wont", "havent", "hasnt",
      "nothing", "neither", "nor"]
  | .negation, .b => []
  | .onOff, .a => ["enable", "enabled", "enabling", "on", "allow", "allowed", "true", "yes",
      "include", "included", "including", "permit", "permitted", "grant", "granted"]
  | .onOff, .b => ["disable", "disabled", "disabling", "off", "deny", "denied", "false", "exclude",
      "excluded", "excluding", "forbid", "forbidden", "revoke", "revoked"]
  | .lifecycle, .a => ["add", "added", "create", "created", "creating", "start", "started",
      "starting", "increase", "increased", "install", "installed", "enroll", "subscribe"]
  | .lifecycle, .b => ["remove", "removed", "delete", "deleted", "deleting", "destroy", "destroyed",
      "stop", "stopped", "stopping", "decrease", "decreased", "uninstall", "cancel", "cancelled",
      "unsubscribe"]
  | .timeRel, .a => ["this", "current", "currently", "today", "latest", "newest", "recent"]
  | .timeRel, .b => ["next", "last", "previous", "prior", "upcoming", "tomorrow", "yesterday",
      "oldest", "earliest", "former"]
  | .order, .a => ["before", "preceding", "first", "initial"]
  | .order, .b => ["after", "following", "final", "subsequent"]
  | .extremum, .a => ["min", "minimum", "lowest", "least", "fewest", "smallest"]
  | .extremum, .b => ["max", "maximum", "highest", "most", "largest", "greatest"]
  | .optionality, .a => ["required", "mandatory", "compulsory"]
  | .optionality, .b => ["optional", "voluntary"]

/-- `_ONE_SIDED_BLOCKS` -/
def oneSidedBlocks : List Axis := [.negation, .timeRel, .extremum, .optionality]

structure PromptLiterals where
  exact : Finset (List Char)
  axes : Finset (Axis × Side)
  deriving DecidableEq

namespace PromptLiterals

def sides (l : PromptLiterals) (axis : Axis) : List Side :=
  [.a, .b].filter fun side ↦ (axis, side) ∈ l.axes

/-- Both prompts lie on the axis, but not alike, or one does and that is enough to block. -/
def axisConflict (l other : PromptLiterals) (axis : Axis) : Bool :=
  let mine := l.sides axis
  let theirs := other.sides axis
  mine != theirs && (!mine.isEmpty && !theirs.isEmpty || oneSidedBlocks.contains axis)

/-- Whether `conflict_with` gives a reason. -/
def conflictsWith (l other : PromptLiterals) : Bool :=
  l.exact ≠ other.exact || polarAxes.any (l.axisConflict other)

theorem axisConflict_comm (l other : PromptLiterals) (axis : Axis) :
    l.axisConflict other axis = other.axisConflict l axis := by
  simp only [axisConflict, bne_comm (a := l.sides axis), Bool.and_comm (!(l.sides axis).isEmpty)]

theorem conflictsWith_comm (l other : PromptLiterals) :
    l.conflictsWith other = other.conflictsWith l := by
  have haxes : l.axisConflict other = other.axisConflict l := funext (axisConflict_comm l other)
  simp only [conflictsWith, haxes, ne_comm]

@[simp] theorem conflictsWith_self (l : PromptLiterals) : l.conflictsWith l = false := by
  simp [conflictsWith, axisConflict]

end PromptLiterals

section Extract

variable (U : Unicode)

def apostrophe : Char := Char.ofNat 39

def quote : Char := Char.ofNat 34

def backquote : Char := Char.ofNat 96

open Pattern

/-- `\d+(?:[.,]\d+)*` -/
def numberRe : Pattern :=
  (plus (char U.digit)).seq (star ((char fun c ↦ c == '.' || c == ',').seq (plus (char U.digit))))

def quotedBy (q : Char) : Pattern := (lit q).seq ((star (char (· != q))).seq (lit q))

def quotedRe : Pattern := (quotedBy apostrophe).alt ((quotedBy quote).alt (quotedBy backquote))

/-- `\b(?:\w+_\w+|\w+\.\w+|[a-z]+[A-Z]\w*)\b` -/
def identRe : Pattern :=
  let word := char U.word
  let snake := (plus word).seq ((lit '_').seq (plus word))
  let dotted := (plus word).seq ((lit '.').seq (plus word))
  let camel := (plus (char fun c ↦ 'a' ≤ c && c ≤ 'z')).seq
    ((char fun c ↦ 'A' ≤ c && c ≤ 'Z').seq (star word))
  (boundary U.word).seq ((snake.alt (dotted.alt camel)).seq (boundary U.word))

def wordRe : Pattern := plus (char fun c ↦ 'a' ≤ c && c ≤ 'z' || c == apostrophe)

/-- The text between the quotes. -/
def unquote (text : List Char) : List Char := (text.drop 1).dropLast

def extractLiterals (text : List Char) : PromptLiterals :=
  let lowered := U.lower text
  let quoted := ((quotedRe.findAll text).map unquote).filter (· ≠ [])
  let words := wordRe.findAll lowered
  { exact := ((numberRe U).findAll lowered ++ quoted.map U.lower ++
      ((identRe U).findAll text).map U.lower).toFinset
    axes := ((polarAxes.flatMap fun axis ↦ [(axis, Side.a), (axis, Side.b)]).filter fun p ↦
      (polarWords p.1 p.2).any fun w ↦ w.toList ∈ words).toFinset }

end Extract

/-- The characters of ASCII. -/
def ascii : Unicode where
  word c := c.isAlphanum || c == '_'
  digit := Char.isDigit
  lower := List.map Char.toLower

example : (extractLiterals ascii "what is 17 * 23 in base_ten?".toList).conflictsWith
    (extractLiterals ascii "what is 17 * 24 in base_ten?".toList) = true := by
  decide +kernel

example : (extractLiterals ascii "how do I turn on logging here?".toList).conflictsWith
    (extractLiterals ascii "how do I enable logging here?".toList) = false := by
  decide +kernel

end Semantic
