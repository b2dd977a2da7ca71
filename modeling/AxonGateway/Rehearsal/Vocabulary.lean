import Mathlib.Data.List.DropRight
import AxonGateway.Lib.JsonText
import AxonGateway.Lib.PyText

/-!
# The vocabulary of the rehearsal ledger

What a row says about controls and observations is normalised against fixed schemas.  A value
that has been normalised is written to the table and is normal again when it is read.
-/

namespace Rehearsal

/-- An attribute of an item; the table gives every number back as a decimal. -/
inductive Attr where
  | str (text : String)
  | num (value : ℚ)
  | bool (b : Bool)
  | list (items : List Attr)
  | map (fields : List (String × Attr))

abbrev Item := List (String × Attr)

/-- A normalised value. -/
inductive Scalar where
  | text (s : String)
  | integer (n : ℤ)
  deriving DecidableEq

def Scalar.toAttr : Scalar → Attr
  | text s => .str s
  | integer n => .num n

abbrev Fields := List (String × Scalar)

def Fields.toAttr (fields : Fields) : Attr := .map (fields.map fun f ↦ (f.1, f.2.toAttr))

/-! ### Sizes -/

def separated (sizes : List ℕ) : ℕ := sizes.sum + (sizes.length - 1)

mutual

/-- `_canonical_size`; a decimal that is no integer cannot be written. -/
def canonicalSize : Attr → Option ℕ
  | .str text => some (JsonText.string text).length
  | .num value => if value.den = 1 then some (toString value.num).length else none
  | .bool true => some 4
  | .bool false => some 5
  | .list items => (itemSizes items).map fun sizes ↦ 2 + separated sizes
  | .map fields => (fieldSizes fields).map fun sizes ↦ 2 + separated sizes

def itemSizes : List Attr → Option (List ℕ)
  | [] => some []
  | a :: rest => (canonicalSize a).bind fun n ↦ (itemSizes rest).map (n :: ·)

def fieldSizes : List (String × Attr) → Option (List ℕ)
  | [] => some []
  | field :: rest => (fieldSize field).bind fun n ↦ (fieldSizes rest).map (n :: ·)

def fieldSize : String × Attr → Option ℕ
  | (name, a) => (canonicalSize a).map fun n ↦ (JsonText.string name).length + 1 + n

end

theorem fieldSizes_append (xs ys : Item) :
    fieldSizes (xs ++ ys) =
      (fieldSizes xs).bind fun sizes ↦ (fieldSizes ys).map (sizes ++ ·) := by
  induction xs with
  | nil => simp [fieldSizes]
  | cons x xs ih =>
      rw [List.cons_append, fieldSizes, fieldSizes, ih]
      cases fieldSize x <;> cases fieldSizes xs <;> cases fieldSizes ys <;> rfl

/-- The value has a size, and it is at most `limit`. -/
@[irreducible] def fits (limit : ℕ) (a : Attr) : Bool := (canonicalSize a).any (· ≤ limit)

/-! ### The vocabulary -/

def maxLedgerTtlSeconds : ℤ := 48 * 60 * 60

def maxLedgerBytes : ℕ := 64 * 1024

def maxObservationBytes : ℕ := 1024

def maxObservations : ℕ := 64

def maxFenceToken : ℤ := 2 ^ 63 - 1

def faultNames : List String := ["dependency-unavailable", "provider-unavailable", "startup-delay"]

def checkpointNames : List String := ["query-after-reservation", "startup-before-ready"]

/-- The names that controls of a type may have. -/
def controlNames (controlType : String) : List String :=
  if controlType = "fault" then faultNames else checkpointNames

def retryableStatusCodes : List ℤ := [429, 500, 502, 503, 504]

/-- `_CONTROL_PARAMETER_FIELDS` -/
def controlParameterFields : List ((String × String) × List String) :=
  [(("checkpoint", "query-after-reservation"), ["hold_seconds"]),
   (("checkpoint", "startup-before-ready"), ["hold_seconds"]),
   (("fault", "dependency-unavailable"), ["dependency"]),
   (("fault", "provider-unavailable"), ["provider", "status_code"]),
   (("fault", "startup-delay"), ["delay_seconds"])]

/-- `_OBSERVATION_SCHEMAS`: the required and the optional fields. -/
def observationSchemas : List (String × List String × List String) :=
  [("dependency-call", ["dependency", "outcome", "request_id"], ["status_code"]),
   ("provider-attempt", ["attempt", "outcome", "provider", "request_id"], ["status_code"]),
   ("query-lifecycle", ["phase", "request_id"],
     ["execution_id", "reservation_units", "terminal_state"]),
   ("routing-decision", ["provider", "request_id", "strategy"], ["candidate_count"]),
   ("startup-attempt", ["boot_id", "phase"], ["exit_code", "runtime_id"])]

/-- `_ENUM_FIELDS` -/
def enumFields : List (String × List String) :=
  [("dependency", ["athena", "dynamodb", "secrets-manager", "security-event-outbox"]),
   ("outcome", ["available", "non-retryable-failure", "retryable-failure", "success",
     "unavailable"]),
   ("phase", ["deferred", "interrupted", "ready", "reconciled", "reserved", "started", "submitted",
     "timed-out"]),
   ("provider", ["ai21", "anthropic", "azure_openai", "bedrock", "bedrock-mantle", "cohere",
     "fireworks", "google_ai", "groq", "openai", "together", "vertex_ai", "xai"]),
   ("strategy", ["cost-optimized", "ensemble", "least-latency", "round-robin", "smart",
     "weighted"]),
   ("terminal_state", ["CANCELLED", "DEFERRED", "FAILED", "SUCCEEDED"])]

/-- `_INTEGER_FIELDS` -/
def integerFields : List (String × ℤ × ℤ) :=
  [("attempt", 1, 100), ("candidate_count", 1, 100), ("delay_seconds", 1, 300),
   ("exit_code", 0, 255), ("hold_seconds", 1, 300), ("reservation_units", 0, 1000000000),
   ("status_code", 100, 599)]

def eventIdFields : List String := ["execution_id", "request_id", "runtime_id"]

/-- `_PHASES_BY_OBSERVATION` -/
def phasesByObservation : List (String × List String) :=
  [("query-lifecycle", ["deferred", "interrupted", "reconciled", "reserved", "submitted"]),
   ("startup-attempt", ["ready", "started", "timed-out"])]

/-! ### Normalisation -/

def isAlnum (c : Char) : Bool :=
  ('A' ≤ c && c ≤ 'Z') || ('a' ≤ c && c ≤ 'z') || ('0' ≤ c && c ≤ '9')

def isLowerHex (c : Char) : Bool := ('0' ≤ c && c ≤ '9') || ('a' ≤ c && c ≤ 'f')

/-- `_IDENTIFIER` and `_SAFE_EVENT_ID` -/
def isIdentifier (s : String) : Bool :=
  match s.toList with
  | [] => false
  | c :: cs => isAlnum c && cs.length ≤ 127 &&
      cs.all fun c ↦ isAlnum c || c == '.' || c == '_' || c == ':' || c == '-'

def isHex (length : ℕ) (s : String) : Bool := s.toList.length == length && s.toList.all isLowerHex

/-- `_canonical_identifier` -/
def canonicalIdentifier (s : String) : Bool :=
  (s.toList.dropWhile PyText.isSpace).rdropWhile PyText.isSpace = s.toList && isIdentifier s

/-- `_positive_integer` -/
def positiveInteger (maximum n : ℤ) : Bool := 1 ≤ n && n ≤ maximum

/-- `_dynamo_integer` -/
def dynamoInteger : Attr → Option ℤ
  | .num value => if value.den = 1 then some value.num else none
  | _ => none

/-- `_bounded_integer` -/
def boundedInteger (raw : Attr) (minimum maximum : ℤ) : Option ℤ :=
  (dynamoInteger raw).filter fun n ↦ minimum ≤ n ∧ n ≤ maximum

/-- `_exact_mapping` -/
def exactMapping (value : Attr) (required optional : List String) : Option Item :=
  match value with
  | .map fields =>
      if required.all (fun name ↦ (fields.map Prod.fst).contains name) &&
          fields.all (fun f ↦ (required ++ optional).contains f.1) then some fields
      else none
  | _ => none

/-- One turn of the loop of `_normalize_fields`. -/
def normalizeField (field : String) (raw : Attr) : Option Scalar :=
  if field = "boot_id" then
    match raw with
    | .str s => if isHex 32 s then some (.text s) else none
    | _ => none
  else if eventIdFields.contains field then
    match raw with
    | .str s => if isIdentifier s then some (.text s) else none
    | _ => none
  else
    match enumFields.lookup field with
    | some allowed =>
        match raw with
        | .str s => if allowed.contains s then some (.text s) else none
        | _ => none
    | none =>
        match integerFields.lookup field with
        | some (minimum, maximum) => (boundedInteger raw minimum maximum).map .integer
        | none => none

/-- `_normalize_fields` -/
def normalizeFields : Item → Option Fields
  | [] => some []
  | (field, raw) :: rest =>
      (normalizeField field raw).bind fun item ↦
        (normalizeFields rest).map ((field, item) :: ·)

/-- `_normalize_control_parameters` -/
def normalizeControlParameters (controlType name : String) (parameters : Attr) : Option Fields :=
  match controlParameterFields.lookup (controlType, name) with
  | none => none
  | some required =>
      ((exactMapping parameters required []).bind normalizeFields).filter fun normalized ↦
        name ≠ "provider-unavailable" ∨
          ∃ code ∈ retryableStatusCodes, normalized.lookup "status_code" = some (.integer code)

/-- What a payload of this kind has to satisfy beyond its schema. -/
def payloadAllowed (kind : String) (normalized : Fields) : Bool :=
  ((phasesByObservation.lookup kind).all fun phases ↦
    phases.any fun phase ↦ normalized.lookup "phase" = some (.text phase)) &&
  !(kind = "startup-attempt" && normalized.lookup "phase" = some (.text "timed-out") &&
    normalized.lookup "exit_code" ≠ some (.integer 124)) &&
  (kind ≠ "dependency-call" ||
    ["available", "unavailable"].any fun o ↦ normalized.lookup "outcome" = some (.text o)) &&
  (kind ≠ "provider-attempt" ||
    ["non-retryable-failure", "retryable-failure", "success"].any fun o ↦
      normalized.lookup "outcome" = some (.text o))

/-- `_normalize_observation_payload` -/
def normalizeObservationPayload (kind : String) (payload : Attr) : Option Fields :=
  match observationSchemas.lookup kind with
  | none => none
  | some (required, optional) =>
      ((exactMapping payload required optional).bind normalizeFields).filter (payloadAllowed kind)

@[simp] theorem dynamoInteger_num (n : ℤ) : dynamoInteger (.num n) = some n := by
  simp [dynamoInteger]

theorem normalizeField_toAttr {field : String} {raw : Attr} {item : Scalar}
    (h : normalizeField field raw = some item) : normalizeField field item.toAttr = some item := by
  unfold normalizeField at h ⊢
  split_ifs at h ⊢ with hboot hevent
  · split at h
    · next s => split_ifs at h with hs; cases h; simp [Scalar.toAttr, hs]
    · cases h
  · split at h
    · next s => split_ifs at h with hs; cases h; simp [Scalar.toAttr, hs]
    · cases h
  · cases henum : enumFields.lookup field with
    | some allowed =>
        rw [henum] at h
        dsimp only at h ⊢
        split at h
        · next s => split_ifs at h with hs; cases h; simp only [Scalar.toAttr, if_pos hs]
        · cases h
    | none =>
        rw [henum] at h
        dsimp only at h ⊢
        cases hint : integerFields.lookup field with
        | none => rw [hint] at h; cases h
        | some bounds =>
            rw [hint] at h
            dsimp only at h ⊢
            obtain ⟨n, hn, rfl⟩ := Option.map_eq_some_iff.mp h
            obtain ⟨-, hbounds⟩ := Option.filter_eq_some_iff.mp hn
            simp only [Scalar.toAttr, boundedInteger, dynamoInteger_num]
            rw [Option.filter_some, if_pos hbounds]
            rfl

theorem normalizeFields_keys {raw : Item} {fields : Fields} (h : normalizeFields raw = some fields) :
    fields.map Prod.fst = raw.map Prod.fst := by
  induction raw generalizing fields with
  | nil => cases h; rfl
  | cons f raw ih =>
      obtain ⟨item, -, hmap⟩ := Option.bind_eq_some_iff.mp h
      obtain ⟨rest, hrest, rfl⟩ := Option.map_eq_some_iff.mp hmap
      simp [ih hrest]

theorem normalizeFields_toAttr {raw : Item} {fields : Fields}
    (h : normalizeFields raw = some fields) :
    normalizeFields (fields.map fun f ↦ (f.1, f.2.toAttr)) = some fields := by
  induction raw generalizing fields with
  | nil => cases h; rfl
  | cons f raw ih =>
      obtain ⟨item, hitem, hmap⟩ := Option.bind_eq_some_iff.mp h
      obtain ⟨rest, hrest, rfl⟩ := Option.map_eq_some_iff.mp hmap
      simp [normalizeFields, normalizeField_toAttr hitem, ih hrest]

/-- A mapping that has been normalised is normal. -/
theorem exactMapping_toAttr {value : Attr} {required optional : List String} {fields : Fields}
    (h : (exactMapping value required optional).bind normalizeFields = some fields) :
    (exactMapping fields.toAttr required optional).bind normalizeFields = some fields := by
  obtain ⟨raw, hraw, hfields⟩ := Option.bind_eq_some_iff.mp h
  unfold exactMapping at hraw
  split at hraw
  · next entries =>
    split_ifs at hraw with hkeys
    cases hraw
    have hsame := normalizeFields_keys hfields
    have hall : ∀ p : String → Bool, fields.all (fun f ↦ p f.1) = raw.all fun f ↦ p f.1 := by
      intro p
      have hmap : ∀ l : List String, ∀ l' : List String, l = l' → l.all p = l'.all p := by
        rintro l _ rfl
        rfl
      simpa [List.all_map, Function.comp_def] using hmap _ _ hsame
    have hcond : (required.all (fun name ↦
          ((fields.map fun f ↦ (f.1, f.2.toAttr)).map Prod.fst).contains name) &&
        (fields.map fun f ↦ (f.1, f.2.toAttr)).all
          (fun f ↦ (required ++ optional).contains f.1)) = true := by
      rw [List.map_map, List.all_map]
      have hfst : (fields.map (Prod.fst ∘ fun f ↦ (f.1, f.2.toAttr))) = raw.map Prod.fst := hsame
      rw [hfst]
      have hnames := hall fun name ↦ (required ++ optional).contains name
      simp only [Function.comp_def]
      rw [hnames]
      exact hkeys
    rw [Fields.toAttr, exactMapping, if_pos hcond, Option.bind_some]
    exact normalizeFields_toAttr hfields
  · cases hraw

theorem normalizeControlParameters_toAttr {controlType name : String} {parameters : Attr}
    {fields : Fields} (h : normalizeControlParameters controlType name parameters = some fields) :
    normalizeControlParameters controlType name fields.toAttr = some fields := by
  unfold normalizeControlParameters at h ⊢
  split at h
  · cases h
  · obtain ⟨hfields, hcode⟩ := Option.filter_eq_some_iff.mp h
    rw [exactMapping_toAttr hfields, Option.filter_some, if_pos hcode]

/-- Only faults and checkpoints have parameters, each under its own names. -/
theorem controlType_of_normal {controlType name : String} {parameters : Attr} {fields : Fields}
    (h : normalizeControlParameters controlType name parameters = some fields) :
    controlType = "fault" ∧ faultNames.contains name = true ∨
      controlType = "checkpoint" ∧ checkpointNames.contains name = true := by
  unfold normalizeControlParameters at h
  split at h
  · cases h
  · next required hlookup =>
    have hmem : ((controlType, name), required) ∈ controlParameterFields := by
      obtain ⟨before, after, heq, -⟩ := List.lookup_eq_some_iff.mp hlookup
      rw [heq]
      simp
    simp only [controlParameterFields, List.mem_cons, Prod.mk.injEq, List.not_mem_nil,
      or_false] at hmem
    rcases hmem with ⟨⟨rfl, rfl⟩, -⟩ | ⟨⟨rfl, rfl⟩, -⟩ | ⟨⟨rfl, rfl⟩, -⟩ | ⟨⟨rfl, rfl⟩, -⟩ |
      ⟨⟨rfl, rfl⟩, -⟩ <;> simp [faultNames, checkpointNames]

theorem normalizeObservationPayload_toAttr {kind : String} {payload : Attr} {fields : Fields}
    (h : normalizeObservationPayload kind payload = some fields) :
    normalizeObservationPayload kind fields.toAttr = some fields := by
  unfold normalizeObservationPayload at h ⊢
  split at h
  · cases h
  · obtain ⟨hfields, hallowed⟩ := Option.filter_eq_some_iff.mp h
    rw [exactMapping_toAttr hfields, Option.filter_some, if_pos hallowed]

end Rehearsal
