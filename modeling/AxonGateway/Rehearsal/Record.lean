import AxonGateway.Rehearsal.Vocabulary

/-!
# The rows of the rehearsal ledger

A record is written as an item of a table and read back by a strict decoder, which refuses what
a writer of this module cannot have written.
-/

namespace Rehearsal

structure BindingFields where
  tenantId : String
  projectId : String
  correlationId : String
  ownerId : String
  releaseCommit : String
  fenceToken : ℤ
  expiresAtEpoch : ℤ
  deriving DecidableEq

/-- `__post_init__` -/
def BindingFields.valid (b : BindingFields) : Bool :=
  canonicalIdentifier b.tenantId && canonicalIdentifier b.projectId && isHex 32 b.correlationId &&
    isHex 64 b.ownerId && isHex 40 b.releaseCommit && positiveInteger maxFenceToken b.fenceToken &&
      positiveInteger 32503680000 b.expiresAtEpoch

/-- The authority attached to every row of a ledger. -/
structure RehearsalBinding extends BindingFields where
  valid : toBindingFields.valid = true
  deriving DecidableEq

structure Control where
  active : Bool
  parameters : Fields
  deriving DecidableEq

abbrev Controls := List (String × Control)

structure RehearsalObservation where
  sequence : ℤ
  kind : String
  observedAtEpoch : ℤ
  payload : Fields
  deriving DecidableEq

structure Record where
  binding : RehearsalBinding
  revision : ℤ
  updatedAtEpoch : ℤ
  faults : Controls
  checkpoints : Controls
  observations : List RehearsalObservation
  deriving DecidableEq

/-- `_empty_record` -/
def emptyRecord (binding : RehearsalBinding) (nowEpoch revision : ℤ) : Record :=
  ⟨binding, revision, nowEpoch, [], [], []⟩

/-- `_binding_is_current` -/
def bindingIsCurrent (binding : RehearsalBinding) (nowEpoch : ℤ) : Bool :=
  0 < binding.expiresAtEpoch - nowEpoch &&
    binding.expiresAtEpoch - nowEpoch ≤ maxLedgerTtlSeconds

/-- `_same_claim_without_fence` -/
def sameClaimWithoutFence (left right : RehearsalBinding) : Bool :=
  left.tenantId = right.tenantId && left.projectId = right.projectId &&
    left.correlationId = right.correlationId && left.ownerId = right.ownerId &&
      left.releaseCommit = right.releaseCommit && left.expiresAtEpoch = right.expiresAtEpoch

/-- `_ledger_key` -/
def ledgerKey (sha256 : List Char → String) (binding : RehearsalBinding) : String :=
  "rehearsal#" ++ sha256
    ('{' :: JsonText.string "correlation_id" ++ ':' :: JsonText.string binding.correlationId ++
      ',' :: JsonText.string "project_id" ++ ':' :: JsonText.string binding.projectId ++
        ',' :: JsonText.string "tenant_id" ++ ':' :: JsonText.string binding.tenantId ++ ['}'])

/-! ### Writing -/

def Controls.toAttr (controls : Controls) : Attr :=
  .map (controls.map fun c ↦ (c.1,
    .map [("active", .bool c.2.active), ("parameters", c.2.parameters.toAttr)]))

def RehearsalObservation.toAttr (o : RehearsalObservation) : Attr :=
  .map [("kind", .str o.kind), ("observed_at_epoch", .num o.observedAtEpoch),
    ("payload", o.payload.toAttr), ("sequence", .num o.sequence)]

/-- `_record_item` -/
def recordItem (sha256 : List Char → String) (record : Record) : Item :=
  [("ledger_key", .str (ledgerKey sha256 record.binding)),
   ("checkpoints", record.checkpoints.toAttr),
   ("correlation_id", .str record.binding.correlationId),
   ("entity_type", .str "launch_rehearsal_control"),
   ("expires_at_epoch", .num record.binding.expiresAtEpoch),
   ("faults", record.faults.toAttr),
   ("fence_token", .num record.binding.fenceToken),
   ("observations", .list (record.observations.map RehearsalObservation.toAttr)),
   ("owner_id", .str record.binding.ownerId),
   ("project_id", .str record.binding.projectId),
   ("release_commit", .str record.binding.releaseCommit),
   ("revision", .num record.revision),
   ("schema_version", .num (1 : ℤ)),
   ("tenant_id", .str record.binding.tenantId),
   ("updated_at_epoch", .num record.updatedAtEpoch)]

/-! ### Reading -/

/-- `_RECORD_FIELDS` -/
def recordFields : List String :=
  ["ledger_key", "checkpoints", "correlation_id", "entity_type", "expires_at_epoch", "faults",
    "fence_token", "observations", "owner_id", "project_id", "release_commit", "revision",
    "schema_version", "tenant_id", "updated_at_epoch"]

def stringAt (item : Item) (name : String) : Option String :=
  match item.lookup name with
  | some (.str s) => some s
  | _ => none

def integerAt (item : Item) (name : String) : Option ℤ := (item.lookup name).bind dynamoInteger

/-- The constructor of a binding; nothing where it raises. -/
def makeBinding (fields : BindingFields) : Option RehearsalBinding :=
  if h : fields.valid = true then some ⟨fields, h⟩ else none

def decodeBinding (item : Item) : Option RehearsalBinding := do
  let tenantId ← stringAt item "tenant_id"
  let projectId ← stringAt item "project_id"
  let correlationId ← stringAt item "correlation_id"
  let ownerId ← stringAt item "owner_id"
  let releaseCommit ← stringAt item "release_commit"
  let fenceToken ← integerAt item "fence_token"
  let expiresAtEpoch ← integerAt item "expires_at_epoch"
  makeBinding ⟨tenantId, projectId, correlationId, ownerId, releaseCommit, fenceToken,
    expiresAtEpoch⟩

/-- One turn of the loop of `_decode_controls`. -/
def decodeControl (controlType name : String) (raw : Attr) : Option Control := do
  let control ← exactMapping raw ["active", "parameters"] []
  match control.lookup "active", control.lookup "parameters" with
  | some (.bool active), some raw => do
      let parameters ← normalizeControlParameters controlType name raw
      some ⟨active, parameters⟩
  | _, _ => none

def decodeEntries (controlType : String) : Item → Option Controls
  | [] => some []
  | (name, raw) :: rest =>
      (decodeControl controlType name raw).bind fun control ↦
        (decodeEntries controlType rest).map ((name, control) :: ·)

/-- `_decode_controls` -/
def decodeControls (value : Attr) (controlType : String) : Option Controls :=
  match value with
  | .map entries =>
      if entries.all fun e ↦ (controlNames controlType).contains e.1 then
        decodeEntries controlType entries
      else none
  | _ => none

/-- One turn of the loop over the observations of an item. -/
def decodeObservation (binding : RehearsalBinding) (nowEpoch expected : ℤ) (raw : Attr) :
    Option RehearsalObservation := do
  let observation ← exactMapping raw ["kind", "observed_at_epoch", "payload", "sequence"] []
  let sequence ← integerAt observation "sequence"
  let observedAt ← integerAt observation "observed_at_epoch"
  let kind ← stringAt observation "kind"
  let raw ← observation.lookup "payload"
  let payload ← normalizeObservationPayload kind raw
  if sequence = expected ∧ binding.expiresAtEpoch - maxLedgerTtlSeconds ≤ observedAt ∧
      observedAt ≤ binding.expiresAtEpoch ∧ observedAt ≤ nowEpoch + 300 ∧
      fits maxObservationBytes payload.toAttr then some ⟨sequence, kind, observedAt, payload⟩
  else none

def decodeObservations (binding : RehearsalBinding) (nowEpoch : ℤ) :
    ℤ → List Attr → Option (List RehearsalObservation)
  | _, [] => some []
  | expected, raw :: rest =>
      (decodeObservation binding nowEpoch expected raw).bind fun o ↦
        (decodeObservations binding nowEpoch (expected + 1) rest).map (o :: ·)

/-- What the decoder asks of the times and the revision of a record. -/
def admissible (binding : RehearsalBinding) (revision updated nowEpoch : ℤ)
    (requireActive : Bool) : Bool :=
  positiveInteger maxFenceToken revision && 0 ≤ updated &&
    binding.expiresAtEpoch - maxLedgerTtlSeconds ≤ updated && updated ≤ binding.expiresAtEpoch &&
      updated ≤ nowEpoch + 300 && (!requireActive || bindingIsCurrent binding nowEpoch)

/-- `_decode_record` -/
def decodeRecord (sha256 : List Char → String) (item : Item) (nowEpoch : ℤ)
    (requireActive : Bool) : Option Record :=
  if !(recordFields.all (fun name ↦ (item.map Prod.fst).contains name) &&
      item.all fun f ↦ recordFields.contains f.1) then none
  else if stringAt item "entity_type" ≠ some "launch_rehearsal_control" ∨
      integerAt item "schema_version" ≠ some 1 then none
  else do
    let binding ← decodeBinding item
    let revision ← integerAt item "revision"
    let updated ← integerAt item "updated_at_epoch"
    if stringAt item "ledger_key" ≠ some (ledgerKey sha256 binding) ∨
        !admissible binding revision updated nowEpoch requireActive then none
    else do
      let rawFaults ← item.lookup "faults"
      let faults ← decodeControls rawFaults "fault"
      let rawCheckpoints ← item.lookup "checkpoints"
      let checkpoints ← decodeControls rawCheckpoints "checkpoint"
      match item.lookup "observations" with
      | some (.list raws) =>
          if maxObservations < raws.length then none
          else do
            let observations ← decodeObservations binding nowEpoch 1 raws
            let record : Record := ⟨binding, revision, updated, faults, checkpoints, observations⟩
            if fits maxLedgerBytes (.map (recordItem sha256 record)) then some record else none
      | _ => none

/-! ### What is written is read back -/

section RoundTrip

variable {sha256 : List Char → String} {binding : RehearsalBinding} {record : Record}

/-- The names and the parameters of the controls are in the vocabulary. -/
def Controls.Normal (controlType : String) (controls : Controls) : Prop :=
  ∀ c ∈ controls,
    (controlNames controlType).contains c.1 = true ∧
      normalizeControlParameters controlType c.1 c.2.parameters.toAttr = some c.2.parameters

structure RehearsalObservation.Sound (binding : RehearsalBinding) (o : RehearsalObservation) :
    Prop where
  normal : normalizeObservationPayload o.kind o.payload.toAttr = some o.payload
  small : fits maxObservationBytes o.payload.toAttr = true
  after : binding.expiresAtEpoch - maxLedgerTtlSeconds ≤ o.observedAtEpoch
  before : o.observedAtEpoch ≤ binding.expiresAtEpoch

/-- What a writer makes sure of. -/
structure Record.Sound (sha256 : List Char → String) (record : Record) : Prop where
  positive : 1 ≤ record.revision
  after : record.binding.expiresAtEpoch - maxLedgerTtlSeconds ≤ record.updatedAtEpoch
  before : record.updatedAtEpoch ≤ record.binding.expiresAtEpoch
  faults : record.faults.Normal "fault"
  checkpoints : record.checkpoints.Normal "checkpoint"
  few : record.observations.length ≤ maxObservations
  numbered : ∀ (k : ℕ) (o : RehearsalObservation), record.observations[k]? = some o →
    o.sequence = k + 1
  observations : ∀ o ∈ record.observations, o.Sound record.binding
  small : fits maxLedgerBytes (.map (recordItem sha256 record)) = true

theorem makeBinding_self (b : RehearsalBinding) : makeBinding b.toBindingFields = some b := by
  rw [makeBinding, dif_pos b.valid]

theorem decodeBinding_recordItem : decodeBinding (recordItem sha256 record) = some record.binding := by
  have h := makeBinding_self record.binding
  simpa [decodeBinding, recordItem, stringAt, integerAt, List.lookup] using h

theorem decodeControl_toAttr {controlType name : String} {c : Control}
    (h : normalizeControlParameters controlType name c.parameters.toAttr = some c.parameters) :
    decodeControl controlType name
      (.map [("active", .bool c.active), ("parameters", c.parameters.toAttr)]) = some c := by
  simp [decodeControl, exactMapping, List.lookup, h]

theorem decodeEntries_map {controlType : String} {controls : Controls}
    (h : ∀ c ∈ controls,
      normalizeControlParameters controlType c.1 c.2.parameters.toAttr = some c.2.parameters) :
    decodeEntries controlType (controls.map fun c ↦ (c.1,
      .map [("active", .bool c.2.active), ("parameters", c.2.parameters.toAttr)])) =
        some controls := by
  induction controls with
  | nil => rfl
  | cons c controls ih =>
      obtain ⟨hc, hrest⟩ := List.forall_mem_cons.mp h
      rw [List.map_cons, decodeEntries, decodeControl_toAttr hc, ih hrest]
      rfl

theorem decodeControls_toAttr {controlType : String} {controls : Controls}
    (h : controls.Normal controlType) :
    decodeControls controls.toAttr controlType = some controls := by
  have hnames : (controls.map fun c ↦ (c.1, Attr.map
      [("active", .bool c.2.active), ("parameters", c.2.parameters.toAttr)])).all (fun e ↦
        (controlNames controlType).contains e.1) = true := by
    rw [List.all_map, List.all_eq_true]
    exact fun c hc ↦ (h c hc).1
  rw [Controls.toAttr, decodeControls, if_pos hnames]
  exact decodeEntries_map fun c hc ↦ (h c hc).2

theorem decodeObservation_toAttr {o : RehearsalObservation} (h : o.Sound binding) (nowEpoch : ℤ) :
    decodeObservation binding nowEpoch o.sequence o.toAttr =
      if o.observedAtEpoch ≤ nowEpoch + 300 then some o else none := by
  have hmapping : exactMapping o.toAttr ["kind", "observed_at_epoch", "payload", "sequence"] [] =
      some [("kind", .str o.kind), ("observed_at_epoch", .num o.observedAtEpoch),
        ("payload", o.payload.toAttr), ("sequence", .num o.sequence)] := by
    simp [exactMapping, RehearsalObservation.toAttr]
  have hsequence : integerAt [("kind", .str o.kind), ("observed_at_epoch", .num o.observedAtEpoch),
      ("payload", o.payload.toAttr), ("sequence", .num o.sequence)] "sequence" =
        some o.sequence := dynamoInteger_num _
  have hobserved : integerAt [("kind", .str o.kind), ("observed_at_epoch", .num o.observedAtEpoch),
      ("payload", o.payload.toAttr), ("sequence", .num o.sequence)] "observed_at_epoch" =
        some o.observedAtEpoch := dynamoInteger_num _
  have hkind : stringAt [("kind", .str o.kind), ("observed_at_epoch", .num o.observedAtEpoch),
      ("payload", o.payload.toAttr), ("sequence", .num o.sequence)] "kind" = some o.kind := rfl
  have hpayload : List.lookup "payload" [("kind", .str o.kind),
      ("observed_at_epoch", .num o.observedAtEpoch), ("payload", o.payload.toAttr),
      ("sequence", .num o.sequence)] = some o.payload.toAttr := rfl
  simp only [decodeObservation, hmapping, Option.bind_eq_bind, Option.bind_some, hsequence,
    hobserved, hkind, hpayload, h.normal, h.small, h.after, h.before, true_and, and_true]

theorem decodeObservations_map {observations : List RehearsalObservation}
    (hsound : ∀ o ∈ observations, o.Sound binding) (nowEpoch first : ℤ)
    (hnumbered : ∀ (k : ℕ) (o : RehearsalObservation), observations[k]? = some o →
      o.sequence = first + k) :
    decodeObservations binding nowEpoch first (observations.map RehearsalObservation.toAttr) =
      if ∀ o ∈ observations, o.observedAtEpoch ≤ nowEpoch + 300 then some observations
      else none := by
  induction observations generalizing first with
  | nil => simp [decodeObservations]
  | cons o rest ih =>
      obtain ⟨ho, hrest⟩ := List.forall_mem_cons.mp hsound
      have hfirst : first = o.sequence := by
        have h := hnumbered 0 o rfl
        simpa using h.symm
      have hlater : ∀ (k : ℕ) (o' : RehearsalObservation), rest[k]? = some o' →
          o'.sequence = first + 1 + k := by
        intro k o' hk
        have h := hnumbered (k + 1) o' (by simpa using hk)
        push_cast at h
        omega
      have hcons : (∀ o' ∈ o :: rest, o'.observedAtEpoch ≤ nowEpoch + 300) ↔
          o.observedAtEpoch ≤ nowEpoch + 300 ∧ ∀ o' ∈ rest, o'.observedAtEpoch ≤ nowEpoch + 300 :=
        List.forall_mem_cons
      rw [List.map_cons, decodeObservations, ih hrest _ hlater, hfirst,
        decodeObservation_toAttr ho]
      by_cases hnow : o.observedAtEpoch ≤ nowEpoch + 300
      · by_cases hall : ∀ o ∈ rest, o.observedAtEpoch ≤ nowEpoch + 300
        · rw [if_pos hnow, if_pos hall, if_pos (hcons.mpr ⟨hnow, hall⟩)]
          rfl
        · rw [if_pos hnow, if_neg hall,
            if_neg fun h ↦ hall (hcons.mp h).2]
          rfl
      · rw [if_neg hnow, if_neg fun h ↦ hnow (hcons.mp h).1]
        rfl

/-- The record can be read with this clock. -/
def Record.Readable (record : Record) (nowEpoch : ℤ) (requireActive : Bool) : Prop :=
  admissible record.binding record.revision record.updatedAtEpoch nowEpoch requireActive = true ∧
    ∀ o ∈ record.observations, o.observedAtEpoch ≤ nowEpoch + 300

instance (record : Record) (nowEpoch : ℤ) (requireActive : Bool) :
    Decidable (record.Readable nowEpoch requireActive) :=
  inferInstanceAs (Decidable (_ ∧ _))

theorem recordItem_fields : (recordFields.all (fun name ↦
      ((recordItem sha256 record).map Prod.fst).contains name) &&
    (recordItem sha256 record).all fun f ↦ recordFields.contains f.1) = true := by
  simp [recordItem, recordFields]

/-- A sound record is read back as it is, or not at all. -/
theorem decodeRecord_recordItem (h : record.Sound sha256) (nowEpoch : ℤ) (requireActive : Bool) :
    decodeRecord sha256 (recordItem sha256 record) nowEpoch requireActive =
      if record.Readable nowEpoch requireActive then some record else none := by
  have htype : stringAt (recordItem sha256 record) "entity_type" =
      some "launch_rehearsal_control" := rfl
  have hversion : integerAt (recordItem sha256 record) "schema_version" = some 1 :=
    dynamoInteger_num 1
  have hrevision : integerAt (recordItem sha256 record) "revision" = some record.revision := dynamoInteger_num _
  have hupdated : integerAt (recordItem sha256 record) "updated_at_epoch" =
      some record.updatedAtEpoch := dynamoInteger_num _
  have hkey : stringAt (recordItem sha256 record) "ledger_key" =
      some (ledgerKey sha256 record.binding) := rfl
  have hfaults : (recordItem sha256 record).lookup "faults" = some record.faults.toAttr := rfl
  have hcheckpoints : (recordItem sha256 record).lookup "checkpoints" =
      some record.checkpoints.toAttr := rfl
  have hobservations : (recordItem sha256 record).lookup "observations" =
      some (.list (record.observations.map RehearsalObservation.toAttr)) := rfl
  have hfew : ¬ maxObservations < (record.observations.map RehearsalObservation.toAttr).length := by
    rw [List.length_map]
    exact not_lt.mpr h.few
  have hnumbered : ∀ (k : ℕ) (o : RehearsalObservation), record.observations[k]? = some o →
      o.sequence = 1 + k := by
    intro k o hk
    rw [h.numbered k o hk]
    ring
  unfold decodeRecord
  rw [recordItem_fields, if_neg (by simp), if_neg (by simp [htype, hversion])]
  simp only [decodeBinding_recordItem, hrevision, hupdated, hkey, hfaults, hcheckpoints,
    Option.bind_eq_bind, Option.bind_some]
  cases hadm : admissible record.binding record.revision record.updatedAtEpoch nowEpoch
      requireActive with
  | false => simp [Record.Readable, hadm]
  | true =>
      rw [if_neg (by simp), decodeControls_toAttr h.faults, decodeControls_toAttr h.checkpoints]
      simp only [Option.bind_some, hobservations]
      rw [if_neg hfew, decodeObservations_map h.observations nowEpoch 1 hnumbered]
      by_cases hall : ∀ o ∈ record.observations, o.observedAtEpoch ≤ nowEpoch + 300
      · rw [if_pos hall, if_pos ⟨hadm, hall⟩, Option.bind_some, if_pos h.small]
      · rw [if_neg hall, if_neg fun hr ↦ hall hr.2]
        rfl

end RoundTrip

end Rehearsal
