import AxonGateway.Events.RoundTrip
import AxonGateway.Lib.GroupedQueue
import AxonGateway.Lib.Interleaving

/-!
# Dispatchers and their outbox

Dispatchers queue an envelope for every destination that an event matches. Workers and functions
take the envelopes from the queue, deliver them and remove what was delivered. An operation that
raises may have taken effect, and whoever is never scheduled again has stopped.
-/

namespace AxonGateway.Events

open PyValue Interleaving GroupedQueue

/-! ### Destinations of tenants -/

/-- `_destinations_by_tenant` -/
abbrev Destinations := List (Text × List EventDestination)

/-- `_normalize_tenant_id` -/
def normalizeTenantId (tenantId : Text) : Except Raised Text :=
  if hasText tenantId then .ok tenantId else .error .valueError

def Destinations.ofTenant (destinations : Destinations) (tenantId : Text) : List EventDestination :=
  (destinations.lookup tenantId).getD []

/-- `add_destination` -/
def addDestination (destinations : Destinations) (destination : EventDestination)
    (tenantId : Option Text) : Except Raised Destinations := do
  let target := (tenantId.filter fun t ↦ !t.isEmpty).getD destination.tenantId
  let tenantId ← normalizeTenantId target
  if destination.tenantId ≠ tenantId then .error .valueError
  else .ok (set destinations tenantId (destinations.ofTenant tenantId ++ [destination]))

/-- `remove_destination`, with what it answers. -/
def removeDestination (destinations : Destinations) (name tenantId : Text) :
    Except Raised (Bool × Destinations) := do
  let tenantId ← normalizeTenantId tenantId
  let current := destinations.ofTenant tenantId
  let remaining := current.filter fun destination ↦ destination.name ≠ name
  if remaining.length = current.length then .ok (false, destinations)
  else .ok (true, set destinations tenantId remaining)

/-- `replace_destinations` -/
def replaceDestinations (destinations : Destinations) (tenantId : Text)
    (new : List EventDestination) : Except Raised Destinations := do
  let tenantId ← normalizeTenantId tenantId
  if new.any fun destination ↦ destination.tenantId ≠ tenantId then .error .valueError
  else .ok (set destinations tenantId new)

/-! ### Operations -/

structure Message where
  messageId : ℕ
  body : Text
  messageGroupId : Text
  messageDeduplicationId : Text
  deriving DecidableEq

/-- A delivery to a destination, and whether it succeeded. -/
structure Attempt where
  event : SecurityEvent
  destination : EventDestination
  succeeded : Bool

/-- The queue, what the dispatchers put into it, their destinations and all deliveries. Threads are
the consumers of the queue. -/
structure World (ι : Type) where
  queue : State ℕ Message
  own : List Message
  destinations : ι → Destinations
  attempts : List Attempt

inductive Op (ι : Type) where
  /-- `_destination_refresher` -/
  | refresh (dispatcher : ι) (tenantId : Text)
  | destinationsForTenant (dispatcher : ι) (tenantId : Text)
  | sendMessage (body groupId deduplicationId : Text)
  | receiveMessage (limit : ℕ)
  /-- `_send_webhook`, `_send_sns` or `_send_cloudwatch`, for a message of the queue or at once. -/
  | send (message : Option Message) (event : SecurityEvent) (destination : EventDestination)
  | deleteMessage (message : Message)
  | changeMessageVisibility (message : Message) (visibilityTimeout : ℕ)

/-- An operation that answers `false` has raised. -/
abbrev Ret {ι : Type} : Op ι → Type
  | .refresh _ _ => Bool
  | .destinationsForTenant _ _ => List EventDestination
  | .sendMessage _ _ _ => Bool
  | .receiveMessage _ => List (Message × ℕ)
  | .send _ _ _ => Bool
  | .deleteMessage _ => Bool
  | .changeMessageVisibility _ _ => Unit

namespace World

variable {ι : Type}

def accept (w : World ι) (m : Message) : World ι :=
  { w with queue := { w.queue with
    accepted := w.queue.accepted ++ [m]
    queue := w.queue.queue ++ [m] } }

def receive (w : World ι) (c : ℕ) (messages : List Message) : World ι :=
  { w with queue := { w.queue with batch := Function.update w.queue.batch c ⟨[], messages⟩ } }

/-- The first message that consumer `c` still has is delivered. -/
def deliver (w : World ι) (c : ℕ) (m : Message) (b : Batch Message) : World ι :=
  { w with queue := { w.queue with
    batch := Function.update w.queue.batch c b
    delivered := w.queue.delivered ++ [m] } }

def remove (w : World ι) (m : Message) : World ι :=
  { w with queue := { w.queue with queue := w.queue.queue.erase m } }

def giveUp (w : World ι) (m : Message) : World ι :=
  { w with queue := { w.queue with
    queue := w.queue.queue.erase m
    aside := w.queue.aside ++ [m] } }

def attempt (w : World ι) (event : SecurityEvent) (destination : EventDestination) (ok : Bool) :
    World ι :=
  { w with attempts := w.attempts ++ [⟨event, destination, ok⟩] }

end World

/-- What an operation of consumer `c` answers and does. -/
inductive Exec {ι : Type} (c : ℕ) (w : World ι) : (o : Op ι) → Ret o → World ι → Prop
  | refresh (i : ι) (tenantId : Text) (r : Bool) : Exec c w (.refresh i tenantId) r w
  | destinationsForTenant (i : ι) (tenantId : Text) :
      Exec c w (.destinationsForTenant i tenantId) ((w.destinations i).ofTenant tenantId) w
  | sendMessage (m : Message) (hnew : m ∉ w.queue.accepted) (r : Bool) :
      Exec c w (.sendMessage m.body m.messageGroupId m.messageDeduplicationId) r
        { w.accept m with own := w.own ++ [m] }
  /-- A message that a dispatcher has sent is not queued again. -/
  | duplicate (body groupId : Text) (m : Message) (hm : m ∈ w.own) :
      Exec c w (.sendMessage body groupId m.messageDeduplicationId) true w
  | sendMessage_raised (body groupId deduplicationId : Text) :
      Exec c w (.sendMessage body groupId deduplicationId) false w
  | receiveMessage (limit : ℕ) (messages : List (Message × ℕ)) (hlimit : messages.length ≤ limit)
      (horder : ∀ g, ofGroup Message.messageGroupId g (messages.map Prod.fst) <+:
        ofGroup Message.messageGroupId g w.queue.queue) :
      Exec c w (.receiveMessage limit) messages (w.receive c (messages.map Prod.fst))
  | send (event : SecurityEvent) (destination : EventDestination) (r : Bool) :
      Exec c w (.send none event destination) r (w.attempt event destination r)
  | deliver (m : Message) (event : SecurityEvent) (destination : EventDestination)
      (done todo : List Message) (hbatch : w.queue.batch c = ⟨done, m :: todo⟩) :
      Exec c w (.send (some m) event destination) true
        ((w.attempt event destination true).deliver c m ⟨done ++ [m], todo⟩)
  /-- A delivery out of turn. -/
  | stray (m : Message) (event : SecurityEvent) (destination : EventDestination)
      (hbatch : ∀ done todo, w.queue.batch c ≠ ⟨done, m :: todo⟩) :
      Exec c w (.send (some m) event destination) true
        ((w.attempt event destination true).deliver c m (w.queue.batch c))
  | deliver_raised (m : Message) (event : SecurityEvent) (destination : EventDestination) :
      Exec c w (.send (some m) event destination) false (w.attempt event destination false)
  | deleteMessage (m : Message) (r : Bool) : Exec c w (.deleteMessage m) r (w.remove m)
  | deleteMessage_raised (m : Message) : Exec c w (.deleteMessage m) false w
  | changeMessageVisibility (m : Message) (visibilityTimeout : ℕ) :
      Exec c w (.changeMessageVisibility m visibilityTimeout) () w

/-- What happens on the side: others put anything into the queue, the queue gives messages up, and
destinations are configured. -/
inductive Env {ι : Type} [DecidableEq ι] (number : Text → Value) (w : World ι) : World ι → Prop
  | accept (m : Message) (hnew : m ∉ w.queue.accepted) : Env number w (w.accept m)
  | giveUp (m : Message) : Env number w (w.giveUp m)
  | add (i : ι) (destination : EventDestination) (tenantId : Option Text) (new : Destinations)
      (hjson : JsonText.IsJson number (.obj destination.config))
      (hnew : addDestination (w.destinations i) destination tenantId = .ok new) :
      Env number w { w with destinations := Function.update w.destinations i new }
  | remove (i : ι) (name tenantId : Text) (removed : Bool) (new : Destinations)
      (hnew : removeDestination (w.destinations i) name tenantId = .ok (removed, new)) :
      Env number w { w with destinations := Function.update w.destinations i new }
  | replace (i : ι) (tenantId : Text) (destinations : List EventDestination) (new : Destinations)
      (hjson : ∀ destination ∈ destinations, JsonText.IsJson number (.obj destination.config))
      (hnew : replaceDestinations (w.destinations i) tenantId destinations = .ok new) :
      Env number w { w with destinations := Function.update w.destinations i new }
  | restart (i : ι) : Env number w { w with destinations := Function.update w.destinations i [] }

/-! ### Programs -/

abbrev Program (ι : Type) := Prog (Op ι) Ret

section Programs

variable {ι : Type} (sha256 : Text → Text) (number : Text → Value)

/-- `_send_to_destination` -/
def sendToDestination (message : Option Message) (event : SecurityEvent)
    (destination : EventDestination) : Program ι Bool :=
  if destination.tenantId ≠ event.tenantId then pure false
  else Prog.op (Op.send message event destination)

/-- `deliver_outbox_body`; nothing where it raises. -/
def deliverOutboxBody (message : Message) : Program ι (Option Text) :=
  match decodeOutboxMessage sha256 number (.str message.body) with
  | .error _ => pure none
  | .ok (event, destination) => do
      if ← sendToDestination (some message) event destination then pure (some event.tenantId)
      else pure none

/-- `_defer_outbox_message` -/
def visibilityTimeout (receiveCount : ℕ) : ℕ := min (5 * 2 ^ min (receiveCount - 1) 16) 300

def deferOutboxMessage (message : Message) (receiveCount : ℕ) : Program ι Unit :=
  Prog.op (Op.changeMessageVisibility message (visibilityTimeout receiveCount))

/-- `_process_outbox_message` -/
def processOutboxMessage (message : Message) (receiveCount : ℕ) : Program ι Bool := do
  match ← deliverOutboxBody sha256 number message with
  | none => do
      deferOutboxMessage message receiveCount
      pure false
  | some _ =>
      if ← Prog.op (Op.deleteMessage message) then pure true
      else do
        deferOutboxMessage message receiveCount
        pure false

def processMessages : List (Message × ℕ) → Program ι Unit
  | [] => pure ()
  | (message, count) :: messages => do
      let _ ← processOutboxMessage sha256 number message (max 1 count)
      processMessages messages

/-- One turn of `_outbox_worker`. -/
def outboxWorkerTurn : Program ι Unit := do
  let messages ← Prog.op (Op.receiveMessage 1)
  processMessages sha256 number messages

/-- `_security_event_records`; nothing where it raises. -/
def securityEventRecords (messages : List Message) : Option (List Message) :=
  if messages = [] ∨ 10 < messages.length ∨ ¬(messages.map Message.messageId).Nodup ∨
      messages.any (·.body.isEmpty) then none
  else some messages

/-- The messages from the first one that cannot be delivered. -/
def processRecords : List Message → Program ι (List ℕ)
  | [] => pure []
  | message :: messages => do
      match ← deliverOutboxBody sha256 number message with
      | some _ => processRecords messages
      | none => pure ((message :: messages).map Message.messageId)

/-- `process_security_event_sqs_batch`, with the messages that it reports as failed. -/
def processSecurityEventSqsBatch (messages : List Message) : Program ι (Option (List ℕ)) :=
  match securityEventRecords messages with
  | none => pure none
  | some records => do
      let failures ← processRecords sha256 number records
      pure (some failures)

def deleteMessages : List Message → Program ι Unit
  | [] => pure ()
  | message :: messages => do
      let _ ← Prog.op (Op.deleteMessage message)
      deleteMessages messages

/-- The function is called with a batch, and what it does not report is removed from the queue. -/
def invokeFunction : Program ι Unit := do
  let received ← Prog.op (Op.receiveMessage 10)
  let messages := received.map Prod.fst
  match ← processSecurityEventSqsBatch sha256 number messages with
  | none => pure ()
  | some failures => deleteMessages (messages.filter fun message ↦ message.messageId ∉ failures)

/-- `_enqueue_outbox_message` -/
def enqueueOutboxMessage (event : SecurityEvent) (destination : EventDestination) :
    Program ι Bool :=
  match outboxMessageBody sha256 event destination with
  | .error _ => pure false
  | .ok body => match deliveryIdentity sha256 event destination with
      | .error _ => pure false
      | .ok deliveryId =>
          Prog.op (Op.sendMessage body (destinationGroupIdentity sha256 destination) deliveryId)

/-- Every destination is tried; the answer is whether none raised. -/
def enqueueAll (event : SecurityEvent) : List EventDestination → Program ι Bool
  | [] => pure true
  | destination :: destinations => do
      let enqueued ← enqueueOutboxMessage sha256 event destination
      let others ← enqueueAll event destinations
      pure (enqueued && others)

def sendAll (event : SecurityEvent) : List EventDestination → Program ι Unit
  | [] => pure ()
  | destination :: destinations => do
      let _ ← sendToDestination none event destination
      sendAll event destinations

/-- The destinations that a dispatch has returned for. -/
inductive Dispatched where
  | unrefreshed
  | enqueued (destinations : List EventDestination)
  | notEnqueued
  | sent

/-- `dispatch` -/
def dispatch (outbox : Bool) (dispatcher : ι) (event : SecurityEvent) : Program ι Dispatched := do
  if ← Prog.op (Op.refresh dispatcher event.tenantId) then
    let destinations ← Prog.op (Op.destinationsForTenant dispatcher event.tenantId)
    let matching := destinations.filter fun destination ↦
      destination.enabled ∧ destination.Admits event
    if outbox then
      if ← enqueueAll sha256 event matching then pure (.enqueued matching) else pure .notEnqueued
    else do
      sendAll event matching
      pure .sent
  else pure .unrefreshed

inductive Call (ι : Type) where
  | dispatch (outbox : Bool) (dispatcher : ι) (event : SecurityEvent)
  | worker
  | function

/-- Dispatchers, workers and functions, any number of them. -/
def outboxService [DecidableEq ι] : Service (Op ι) Ret (World ι) (Call ι) (Option Dispatched) where
  machine := { exec := fun c o w r w' ↦ Exec c w o r w', env := Env number }
  body
    | .dispatch outbox dispatcher event => do
        let dispatched ← dispatch sha256 outbox dispatcher event
        pure (some dispatched)
    | .worker => do
        outboxWorkerTurn sha256 number
        pure none
    | .function => do
        invokeFunction sha256 number
        pure none
  admits
    | _, .dispatch _ _ event => JsonText.IsJson number (.obj event.data)
    | _, _ => True

def startWorld (ι : Type) : World ι := ⟨start ℕ Message, [], fun _ ↦ [], []⟩

end Programs

end AxonGateway.Events
