import AxonGateway.Lib.JsonHook
import AxonGateway.Lib.Outcome
import AxonGateway.Lib.PyText

/-!
# Envelopes of the event outbox

An envelope carries a security event together with the destination that it is for. It is written as
a canonical text and named by the hash of both.
-/

namespace AxonGateway.Events

open PyValue JsonText Outcome

inductive Raised where
  | destinationValidation (message : String)
  | valueError
  deriving DecidableEq

def refuse {α : Type} (message : String) : Except Raised α := .error (.destinationValidation message)

/-! ### Events and destinations -/

inductive DestinationType where
  | webhook | cloudwatch | sns
  deriving DecidableEq

namespace DestinationType

def value : DestinationType → Text
  | webhook => "webhook".toList
  | cloudwatch => "cloudwatch".toList
  | sns => "sns".toList

/-- `DestinationType(value)` -/
def ofValue (t : Text) : Option DestinationType :=
  [webhook, cloudwatch, sns].find? fun destinationType ↦ destinationType.value = t

end DestinationType

structure EventDestination where
  name : Text
  destinationType : DestinationType
  config : Fields
  eventFilter : Option (List Text)
  enabled : Bool
  tenantId : Text

structure SecurityEvent where
  eventId : Text
  eventType : Text
  timestamp : Text
  source : Text
  severity : Text
  userId : Text
  projectId : Text
  data : Fields
  tenantId : Text

/-- `bool(value.strip())` -/
def hasText (t : Text) : Bool := !t.all PyText.isSpace

/-- The filter of a destination lets the event pass. -/
def EventDestination.Admits (destination : EventDestination) (event : SecurityEvent) : Prop :=
  ∀ types ∈ destination.eventFilter, types ≠ [] → event.eventType ∈ types

instance decidableAdmits (destination : EventDestination) (event : SecurityEvent) :
    Decidable (destination.Admits event) :=
  inferInstanceAs (Decidable (∀ types ∈ destination.eventFilter, types ≠ [] →
    event.eventType ∈ types))

/-- `fields[name]`, for a name that is in the dictionary. -/
def item (fields : Fields) (name : String) : Value := (fields.lookup name.toList).getD .null

/-- `set(fields) == names` -/
def hasFields (fields : Fields) (names : List String) : Bool :=
  (fields.map Prod.fst).all (names.map String.toList).contains &&
    (names.map String.toList).all (fields.map Prod.fst).contains

/-- `_EVENT_FIELDS` -/
def eventFields : List String :=
  ["event_id", "event_type", "timestamp", "source", "severity", "tenant_id", "user_id",
    "project_id", "data"]

/-- `_DESTINATION_FIELDS` -/
def destinationFields : List String :=
  ["name", "destination_type", "config", "event_filter", "enabled", "tenant_id"]

/-- `_OUTBOX_FIELDS` -/
def outboxFields : List String :=
  ["schema_version", "delivery_id", "tenant_id", "event", "destination"]

/-- `to_dict` -/
def SecurityEvent.toDict (event : SecurityEvent) : Fields :=
  [("event_id".toList, .str event.eventId), ("event_type".toList, .str event.eventType),
    ("timestamp".toList, .str event.timestamp), ("source".toList, .str event.source),
    ("severity".toList, .str event.severity), ("tenant_id".toList, .str event.tenantId),
    ("user_id".toList, .str event.userId), ("project_id".toList, .str event.projectId),
    ("data".toList, .obj event.data)]

/-- `_required_string` -/
def requiredString (fieldName : String) (allowEmpty : Bool) : Value → Except Raised Text
  | .str t =>
      if allowEmpty ∨ hasText t then .ok t
      else refuse ("security event outbox " ++ fieldName ++ " must be a string")
  | _ => refuse ("security event outbox " ++ fieldName ++ " must be a string")

/-- The event of a dictionary with the fields of one. -/
def eventOf (value : Fields) : Except Raised SecurityEvent := do
  let eventId ← requiredString "event_id" false (item value "event_id")
  let eventType ← requiredString "event_type" false (item value "event_type")
  let timestamp ← requiredString "timestamp" false (item value "timestamp")
  let source ← requiredString "source" false (item value "source")
  let severity ← requiredString "severity" false (item value "severity")
  let tenantId ← requiredString "tenant_id" false (item value "tenant_id")
  let userId ← requiredString "user_id" true (item value "user_id")
  let projectId ← requiredString "project_id" true (item value "project_id")
  match item value "data" with
  | .obj data =>
      .ok ⟨eventId, eventType, timestamp, source, severity, userId, projectId, data, tenantId⟩
  | _ => refuse "security event data must be an object"

/-- `_event_snapshot` -/
def eventSnapshot (event : SecurityEvent) : Except Raised Fields := do
  let snapshot := event.toDict
  if hasFields snapshot eventFields then
    let _ ← eventOf snapshot
    .ok snapshot
  else refuse "security event snapshot fields are invalid"

def filterValue : Option (List Text) → Value
  | none => .null
  | some types => .arr (types.map .str)

def EventDestination.toDict (destination : EventDestination) : Fields :=
  [("name".toList, .str destination.name),
    ("destination_type".toList, .str destination.destinationType.value),
    ("config".toList, .obj destination.config),
    ("event_filter".toList, filterValue destination.eventFilter),
    ("enabled".toList, .bool destination.enabled),
    ("tenant_id".toList, .str destination.tenantId)]

/-- `_destination_snapshot` -/
def destinationSnapshot (destination : EventDestination) : Except Raised Fields := do
  let _ ← requiredString "destination name" false (.str destination.name)
  let _ ← requiredString "destination tenant_id" false (.str destination.tenantId)
  if (destination.eventFilter.getD []).all hasText then .ok destination.toDict
  else refuse "destination event_filter must contain event type strings"

/-! ### Writing -/

/-- `_OUTBOX_MAX_MESSAGE_BYTES` -/
def outboxMaxMessageBytes : ℕ := 256 * 1024

/-- `len(text.encode("utf-8"))` -/
def byteLength (t : Text) : ℕ := (t.map Char.utf8Size).sum

/-- `_canonical_json` -/
def canonicalJson (value : Value) : Except Raised Text :=
  match dumpsFinite value with
  | some text => .ok text
  | none => .error .valueError

section Hash

variable (sha256 : Text → Text)

/-- `_delivery_identity` -/
def deliveryIdentity (event : SecurityEvent) (destination : EventDestination) :
    Except Raised Text := do
  let eventValue ← eventSnapshot event
  let destinationValue ← destinationSnapshot destination
  let text ← canonicalJson (.obj [("tenant_id".toList, .str event.tenantId),
    ("event".toList, .obj eventValue), ("destination".toList, .obj destinationValue)])
  .ok (sha256 text)

/-- `_destination_group_identity` -/
def destinationGroupIdentity (destination : EventDestination) : Text :=
  sha256 (canonical (.obj [("tenant_id".toList, .str destination.tenantId),
    ("destination_name".toList, .str destination.name),
    ("destination_type".toList, .str destination.destinationType.value)]))

def envelopeOf (version : Value) (deliveryId tenantId : Text) (event destination : Fields) : Fields :=
  [("schema_version".toList, version), ("delivery_id".toList, .str deliveryId),
    ("tenant_id".toList, .str tenantId), ("event".toList, .obj event),
    ("destination".toList, .obj destination)]

/-- `_OUTBOX_SCHEMA_VERSION` -/
def outboxSchemaVersion : Value := .number "1".toList

/-- `_outbox_message_body` -/
def outboxMessageBody (event : SecurityEvent) (destination : EventDestination) :
    Except Raised Text := do
  if event.tenantId ≠ destination.tenantId then refuse "cross-tenant event dispatch refused"
  else
    let eventValue ← eventSnapshot event
    let destinationValue ← destinationSnapshot destination
    let deliveryId ← deliveryIdentity sha256 event destination
    let body ← canonicalJson (.obj (envelopeOf outboxSchemaVersion deliveryId event.tenantId
      eventValue destinationValue))
    if outboxMaxMessageBytes < byteLength body then
      refuse "security event outbox message is too large"
    else .ok body

/-! ### Reading -/

/-- `_unique_json_object` -/
def uniqueJsonObject (pairs : Fields) : Option Fields :=
  pairs.foldlM (fun value pair ↦
    if (value.lookup pair.1).isSome then none else some (set value pair.1 pair.2)) []

/-- The hooks of the outbox; `_reject_json_constant` raises for every constant. -/
def outboxHooks (number : Text → Value) : Hooks where
  object pairs := (uniqueJsonObject pairs).map .obj
  number := number
  constant _ := none

/-- The version is a number that equals the one of the schema. -/
def isSchemaVersion : Value → Bool
  | .bool _ => false
  | v => isOne v

/-- `_SHA256_RE` -/
def isDigest (text : Text) : Bool :=
  text.length == 64 && text.all fun c ↦ c.isDigit || ('a' ≤ c && c ≤ 'f')

/-- The event in an envelope of the tenant. -/
def decodeEvent (tenantId : Text) : Value → Except Raised SecurityEvent
  | .obj value =>
      if hasFields value eventFields then do
        let event ← eventOf value
        if event.tenantId = tenantId then .ok event
        else refuse "security event outbox event tenant does not match envelope"
      else refuse "security event outbox event fields are invalid"
  | _ => refuse "security event outbox event fields are invalid"

def decodeType : Value → Except Raised DestinationType
  | .str t => match DestinationType.ofValue t with
      | some destinationType => .ok destinationType
      | none => refuse "security event outbox destination type is invalid"
  | _ => refuse "security event outbox destination type is invalid"

def filterText : Value → Option Text
  | .str t => if hasText t then some t else none
  | _ => none

def decodeFilter : Value → Except Raised (Option (List Text))
  | .null => .ok none
  | .arr items => match items.mapM filterText with
      | some types => .ok (some types)
      | none => refuse "destination event_filter must contain event type strings"
  | _ => refuse "destination event_filter must contain event type strings"

def decodeConfig : Value → Except Raised Fields
  | .obj config => .ok config
  | _ => refuse "destination config must be an object"

def decodeEnabled : Value → Except Raised Unit
  | .bool true => .ok ()
  | _ => refuse "security event outbox destination must be enabled"

/-- The destination in an envelope of the tenant. -/
def decodeDestination (tenantId : Text) (event : SecurityEvent) :
    Value → Except Raised EventDestination
  | .obj value =>
      if hasFields value destinationFields then do
        let destinationTenant ←
          requiredString "destination tenant_id" false (item value "tenant_id")
        if destinationTenant ≠ tenantId then
          refuse "security event outbox destination tenant does not match envelope"
        else
          let name ← requiredString "destination name" false (item value "name")
          let destinationType ← decodeType (item value "destination_type")
          let config ← decodeConfig (item value "config")
          let eventFilter ← decodeFilter (item value "event_filter")
          let _ ← decodeEnabled (item value "enabled")
          let destination : EventDestination :=
            ⟨name, destinationType, config, eventFilter, true, destinationTenant⟩
          if destination.Admits event then .ok destination
          else refuse "security event outbox destination does not match the event"
      else refuse "security event outbox destination fields are invalid"
  | _ => refuse "security event outbox destination fields are invalid"

def decodeEnvelope (envelope : Fields) : Except Raised (SecurityEvent × EventDestination) := do
  if isSchemaVersion (item envelope "schema_version") then
    let tenantId ← requiredString "tenant_id" false (item envelope "tenant_id")
    let event ← decodeEvent tenantId (item envelope "event")
    let destination ← decodeDestination tenantId event (item envelope "destination")
    match item envelope "delivery_id" with
    | .str deliveryId =>
        if isDigest deliveryId then
          let identity ← deliveryIdentity sha256 event destination
          if deliveryId = identity then .ok (event, destination)
          else refuse "security event outbox delivery identity is invalid"
        else refuse "security event outbox delivery identity is invalid"
    | _ => refuse "security event outbox delivery identity is invalid"
  else refuse "security event outbox schema version is unsupported"

/-- `_decode_outbox_message` -/
def decodeOutboxMessage (number : Text → Value) :
    Value → Except Raised (SecurityEvent × EventDestination)
  | .str [] => refuse "security event outbox body is invalid"
  | .str body =>
      if outboxMaxMessageBytes < byteLength body then
        refuse "security event outbox message is too large"
      else match loadsHooked (outboxHooks number) body with
        | none => refuse "security event outbox body is not valid JSON"
        | some (.obj envelope) =>
            if hasFields envelope outboxFields then decodeEnvelope sha256 envelope
            else refuse "security event outbox envelope fields are invalid"
        | some _ => refuse "security event outbox envelope fields are invalid"
  | _ => refuse "security event outbox body is invalid"

end Hash

end AxonGateway.Events
