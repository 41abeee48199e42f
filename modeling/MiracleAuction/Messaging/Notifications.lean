import MiracleAuction.Base.Pool
import MiracleAuction.Base.Run
import MiracleAuction.Messaging.Drafts

/-!
# `notification-consumer.worker.ts`: receipts and failures

Handlers of Kafka messages and recovery runs enqueue the mails of an event together with
its receipt. A failure is written to the receipt by its event id alone, and a failure
for good comes with an event of its own.
-/
namespace MiracleAuction.Messaging

def notificationEventTypes : List String :=
  ["auction.closed.v1", "auction.buy_now_completed.v1", "product.question_created.v1",
    "product.question_answered.v1", "product.description_changed.v1", "seller.approved.v1",
    "seller.rejected.v1"]

def requiresNotification (eventType : String) : Bool := eventType ∈ notificationEventTypes

def invalidEventType : String := "notification.invalid_event.v1"

/-- An event that gets a receipt. -/
structure ReceivedEvent extends IncomingEvent where
  named : requiresNotification eventType ∨ eventType = invalidEventType
  aggregate : aggregateId ≠ ""
  object : payload.isObject = true

/-- The event that stands for a message which cannot be parsed. -/
def invalidEvent (eventId : String) (now : DateMs) : ReceivedEvent where
  eventId := eventId
  eventType := invalidEventType
  eventVersion := 1
  aggregateId := "invalid"
  occurredAt := toISOString now
  correlationId := eventId
  payload := .object []
  named := .inr rfl
  aggregate := by decide
  object := rfl

/-! ## Rows -/

inductive ReceiptStatus
  | retrying | processed | terminal
  deriving DecidableEq, Repr

/-- Where an event comes from. -/
structure Metadata where
  topic : String
  partition : Option Nat := none
  offset : Option Nat := none

/-- A row of `notification_event_receipts`. -/
structure NotificationReceipt where
  event : ReceivedEvent
  metadata : Metadata
  status : ReceiptStatus
  attempts : Nat
  lastError : Option String := none
  processedAt : Option DateMs := none
  terminalAt : Option DateMs := none

/-- Processed or terminal. -/
def NotificationReceipt.Settled (receipt : NotificationReceipt) : Prop :=
  receipt.status = .processed ∨ receipt.status = .terminal

instance (receipt : NotificationReceipt) : Decidable receipt.Settled := by
  unfold NotificationReceipt.Settled; infer_instance

/-- A row of `email_deliveries` as it is enqueued, with the event it was enqueued for. -/
structure QueuedMail extends EmailDraft where
  source : ReceivedEvent

/-- The unique key of the deliveries. -/
def QueuedMail.key (mail : QueuedMail) : String × String × String :=
  (mail.source.eventId, mail.recipientKey, mail.templateKey)

structure MarkedProduct where
  status : AuctionStatus
  endTime : Option DateMs
  notificationEnqueuedAt : Option DateMs := none

/-- The tables that the workers write. -/
structure NotificationDb where
  receipts : String → Option NotificationReceipt := fun _ => none
  mails : List QueuedMail := []
  outbox : List OutboxEvent := []
  products : Int → Option MarkedProduct := fun _ => none

/-! ## Statements -/

/-- `createMany` with `skipDuplicates`. -/
def createMails (source : ReceivedEvent) (drafts : List EmailDraft) (mails : List QueuedMail) :
    List QueuedMail :=
  drafts.foldl (fun mails draft =>
    let mail : QueuedMail := ⟨draft, source⟩
    if mail.key ∈ mails.map (·.key) then mails else mails ++ [mail]) mails

/-- The upsert of a processed receipt; a field that is undefined is not updated. -/
def processedReceipt (event : ReceivedEvent) (metadata : Metadata) (now : DateMs) :
    Option NotificationReceipt → NotificationReceipt
  | none => ⟨event, metadata, .processed, 1, none, some now, none⟩
  | some receipt =>
    { receipt with
      status := .processed
      attempts := receipt.attempts + 1
      metadata := ⟨receipt.metadata.topic, metadata.partition.or receipt.metadata.partition,
        metadata.offset.or receipt.metadata.offset⟩
      processedAt := some now
      lastError := none }

/-- The upsert of a failed attempt. -/
def retriedReceipt (event : ReceivedEvent) (metadata : Metadata) (error : String) :
    Option NotificationReceipt → NotificationReceipt
  | none => ⟨event, metadata, .retrying, 1, some (slice 2000 error), none, none⟩
  | some receipt =>
    { receipt with
      status := .retrying
      attempts := receipt.attempts + 1
      lastError := some (slice 2000 error) }

/-- The upsert of a failure for good. -/
def failedReceipt (event : ReceivedEvent) (metadata : Metadata) (attempts : Nat) (error : String)
    (now : DateMs) : Option NotificationReceipt → NotificationReceipt
  | none => ⟨event, metadata, .terminal, attempts, some (slice 2000 error), none, some now⟩
  | some receipt =>
    { receipt with
      status := .terminal
      attempts := attempts
      lastError := some (slice 2000 error)
      terminalAt := some now }

namespace NotificationDb
variable (db : NotificationDb)

def upsertReceipt (eventId : String) (write : Option NotificationReceipt → NotificationReceipt) :
    NotificationDb :=
  { db with
    receipts := Function.update db.receipts eventId (some (write (db.receipts eventId))) }

def settled (eventId : String) : Bool := (db.receipts eventId).any (·.Settled)

/-- `auction_notification_enqueued_at` of a product is set once. -/
def markProduct (productId : Int) (now : DateMs) : NotificationDb :=
  { db with
    products := Function.update db.products productId
      ((db.products productId).map fun product =>
        { product with
          notificationEnqueuedAt := product.notificationEnqueuedAt.or (some now) }) }

/-- What other processes write of a product. -/
def updateProduct (productId : Int) (status : AuctionStatus) (endTime : Option DateMs) :
    NotificationDb :=
  { db with
    products := Function.update db.products productId
      (some ⟨status, endTime, (db.products productId).bind (·.notificationEnqueuedAt)⟩) }

/-- The writes of `enqueueNotificationEvent`. -/
def enqueue (event : ReceivedEvent) (metadata : Metadata) (drafts : List EmailDraft)
    (now : DateMs) : Except String NotificationDb := do
  let db := db.upsertReceipt event.eventId (processedReceipt event metadata now)
  let db := { db with mails := createMails event drafts db.mails }
  if closesAuction event.eventType then
    let productId ← bigInt event.aggregateId
    return db.markProduct productId now
  return db

end NotificationDb

/-- A value that may be undefined; JSON leaves such a property out. -/
def optionalField (name : String) (value : Option Json) : List (String × Json) :=
  value.toList.map fun value => (name, value)

def IncomingEvent.json (event : IncomingEvent) : Json :=
  .object ([("eventId", .string event.eventId), ("eventType", .string event.eventType),
    ("eventVersion", .number event.eventVersion), ("aggregateId", .string event.aggregateId),
    ("occurredAt", .string event.occurredAt), ("correlationId", .string event.correlationId)] ++
    optionalField "causationId" (event.causationId.map .string) ++ [("payload", event.payload)])

/-- The event of a message that has failed for good. -/
def consumerFailed (topics : KafkaTopics) (groupId : String) (event : ReceivedEvent)
    (metadata : Metadata) (attempts : Nat) (error : String) : AddOutboxEventInput where
  topic := topics.asyncDlq
  eventType := "notification.consumer_failed.v1"
  aggregateId := event.aggregateId
  causationId := some event.eventId
  correlationId := some event.correlationId
  payload := .object
    ([("consumer", .string groupId), ("sourceTopic", .string metadata.topic)] ++
      optionalField "partition" (metadata.partition.map fun n => .number n) ++
      optionalField "offset" (metadata.offset.map fun n => .string (toString n)) ++
      [("event", event.json), ("attempt", .number attempts), ("error", .string (slice 500 error))])

/-- `terminalReceipt`. -/
def terminalReceipt (topics : KafkaTopics) (groupId : String) (event : ReceivedEvent)
    (metadata : Metadata) (attempts : Nat) (error : String) (now : DateMs) (generated : Generated)
    (db : NotificationDb) : Except String NotificationDb := do
  let db := db.upsertReceipt event.eventId (failedReceipt event metadata attempts error now)
  let failure ←
    addOutboxEvent topics (consumerFailed topics groupId event metadata attempts error) generated
  return { db with outbox := db.outbox ++ [failure] }

/-! ## Handlers -/

/-- What a handler meets at a step: the flags of the worker, the rows of its queries or
their failure, and what becomes of a statement. -/
inductive StepInput
  | flags (stop : Bool) (now : DateMs)
  | query (failure : Option String)
  | rows (tables : Except String NotificationTables)
  | write (answer : Answer) (failure : String) (now : DateMs) (generated : Generated)

inductive EnqueuePhase
  | existing
  | resolve
  | receipt (drafts : List EmailDraft)
  | commit (drafts : List EmailDraft)
  deriving DecidableEq

/-- A step of `enqueueNotificationEvent`. -/
def enqueueNotificationEvent (event : ReceivedEvent) (metadata : Metadata) (db : NotificationDb) :
    EnqueuePhase → StepInput → Option (NotificationDb × Progress EnqueuePhase String)
  | .existing, .query none =>
    some (db, if db.settled event.eventId then .returned else .proceed .resolve)
  | .existing, .query (some failure) => some (db, .threw failure)
  | .resolve, .rows (.error failure) => some (db, .threw failure)
  | .resolve, .rows (.ok tables) =>
    match resolveNotificationDrafts tables event.toIncomingEvent with
    | .ok drafts => some (db, .proceed (.receipt drafts))
    | .error failure => some (db, .threw failure)
  | .receipt drafts, .query none =>
    some (db, if db.settled event.eventId then .returned else .proceed (.commit drafts))
  | .receipt _, .query (some failure) => some (db, .threw failure)
  | .commit drafts, .write answer failure now _ =>
    match db.enqueue event metadata drafts now with
    | .error failure => some (db, .threw failure)
    | .ok enqueued =>
      some (if answer.effective then enqueued else db,
        if answer = .done then .returned else .threw failure)
  | _, _ => none

/-- A text, and what `JSON.parse` makes of it. -/
structure MessageValue where
  text : String
  json : Except String Json

/-- A Kafka message; its value may be missing. -/
structure IncomingMessage where
  topic : String
  partition : Nat
  offset : Nat
  value : Option MessageValue

def IncomingMessage.metadata (message : IncomingMessage) : Metadata :=
  ⟨message.topic, some message.partition, some message.offset⟩

/-- The event of a message. -/
def IncomingMessage.event (message : IncomingMessage) : Except String IncomingEvent :=
  match message.value with
  | none => .error "Kafka event has no value"
  | some value => value.json >>= parseEventEnvelope

/-- An event that is parsed is well formed. -/
theorem IncomingMessage.event_ok {message : IncomingMessage} {event : IncomingEvent}
    (h : message.event = .ok event) : event.WellFormed := by
  unfold IncomingMessage.event at h
  split at h
  · cases h
  · obtain ⟨parsed, _, hparse⟩ := Except.bind_eq_ok h
    exact parseEventEnvelope_ok hparse

inductive ConsumerPhase
  | arrived
  | enqueue (event : ReceivedEvent) (phase : EnqueuePhase)
  | failing (event : ReceivedEvent) (error : String)
  | terminal (event : ReceivedEvent) (attempts : Nat) (error : String)

section
variable (topics : KafkaTopics) (groupId : String) (retryLimit : Nat) (sha256 : String → String)

/-- The start of `processKafkaMessage`. -/
def receive (message : IncomingMessage) (now : DateMs) : Progress ConsumerPhase String :=
  match h : message.event with
  | .error error =>
    let eventId := syntheticEventId sha256 message.topic message.partition message.offset
    .proceed (.terminal (invalidEvent eventId now) retryLimit error)
  | .ok event =>
    if hname : requiresNotification event.eventType then
      .proceed (.enqueue
        { event with
          named := .inl hname
          aggregate := (message.event_ok h).aggregateId
          object := (message.event_ok h).payload } .existing)
    else .returned

/-- A step of what `eachBatch` does with a message. -/
def processKafkaMessage (message : IncomingMessage) (db : NotificationDb) :
    ConsumerPhase → StepInput → Option (NotificationDb × Progress ConsumerPhase String)
  | .arrived, .flags stop now =>
    some (db, if stop then .returned else receive retryLimit sha256 message now)
  | .enqueue event phase, input =>
    (enqueueNotificationEvent event message.metadata db phase input).map fun
      | (db, .proceed phase) => (db, .proceed (.enqueue event phase))
      | (db, .returned) => (db, .returned)
      | (db, .threw error) => (db, .proceed (.failing event error))
  | .failing event error, .write answer failure _ _ =>
    let retried :=
      db.upsertReceipt event.eventId (retriedReceipt event message.metadata error)
    let attempts := ((retried.receipts event.eventId).map (·.attempts)).getD 0
    some (if answer.effective then retried else db,
      if answer ≠ .done then .threw failure
      else if retryLimit ≤ attempts then .proceed (.terminal event attempts error)
      else .threw error)
  | .terminal event attempts error, .write answer failure now generated =>
    match terminalReceipt topics groupId event message.metadata attempts error now generated db with
    | .error failure => some (db, .threw failure)
    | .ok reported =>
      some (if answer.effective then reported else db,
        if answer = .done then .returned else .threw failure)
  | _, _ => none

/-! ## `recoverLegacyAuctionNotifications` -/

theorem toString_ne_empty (n : Int) : toString n ≠ "" := by
  cases n with
  | ofNat m => exact Nat.repr_ne_empty
  | negSucc m =>
    change "-" ++ Nat.repr (m + 1) ≠ ""
    simp

/-- The event that a recovery run makes of an ended auction. -/
def recoveryEvent (productId : Int) (endTime : Option DateMs) (now : DateMs) : ReceivedEvent where
  eventId := recoveryEventId sha256 productId
  eventType := "auction.closed.v1"
  eventVersion := 1
  aggregateId := toString productId
  occurredAt := toISOString (endTime.getD now)
  correlationId := recoveryEventId sha256 productId
  payload := .object [("productId", .string (toString productId)), ("recovery", .bool true)]
  named := .inl (by decide)
  aggregate := toString_ne_empty productId
  object := rfl

/-- The product is one that the scan looks for. -/
def MarkedProduct.Unmarked (product : MarkedProduct) : Prop :=
  (product.status = .ended ∨ product.status = .sold) ∧ product.notificationEnqueuedAt = none

instance (product : MarkedProduct) : Decidable product.Unmarked := by
  unfold MarkedProduct.Unmarked; infer_instance

/-! ## Workers -/

/-- A transaction that was carried out, and made the receipt of the event processed or terminal. -/
structure Decision where
  event : ReceivedEvent
  status : ReceiptStatus

/-- The receipt is read. -/
def EnqueuePhase.looks : EnqueuePhase → StepInput → Bool
  | .existing, .query none => true
  | .receipt _, .query none => true
  | _, _ => false

/-- The transaction is carried out. -/
def EnqueuePhase.commits : EnqueuePhase → StepInput → Bool
  | .commit _, .write answer _ _ _ => answer.effective
  | _, _ => false

def EnqueuePhase.decision (event : ReceivedEvent) (metadata : Metadata) (db : NotificationDb) :
    EnqueuePhase → StepInput → List Decision
  | .commit drafts, .write answer _ now _ =>
    match db.enqueue event metadata drafts now with
    | .error _ => []
    | .ok _ => if answer.effective then [⟨event, .processed⟩] else []
  | _, _ => []

def ConsumerPhase.looks : ConsumerPhase → StepInput → Bool
  | .enqueue _ phase, input => phase.looks input
  | _, _ => false

def ConsumerPhase.decision (message : IncomingMessage) (db : NotificationDb) :
    ConsumerPhase → StepInput → List Decision
  | .enqueue event phase, input => phase.decision event message.metadata db input
  | .terminal event _ _, .write answer _ _ _ =>
    if answer.effective then [⟨event, .terminal⟩] else []
  | _, _ => []

/-- The rows that are found, of products that the table has. -/
def NotificationTables.within (db : NotificationDb) (tables : NotificationTables) :
    NotificationTables :=
  { tables with
    products := fun productId => if (db.products productId).isSome then tables.products productId
      else none }

def StepInput.within (db : NotificationDb) : StepInput → StepInput
  | .rows (.ok tables) => .rows (.ok (tables.within db))
  | input => input

/-- A handler of a message, or a recovery run with the events that are left. The handler `looked`
at the receipt, and the run `scanned` the products, when so many decisions had been made. -/
inductive NotificationTask
  | consumer (message : IncomingMessage) (phase : ConsumerPhase) (looked : Nat)
  | recovery (event : ReceivedEvent) (phase : EnqueuePhase) (rest : List ReceivedEvent)
      (scanned : Nat)

/-- The tables, the tasks of all workers, and the decisions so far. -/
structure NotificationWorld where
  db : NotificationDb := {}
  tasks : List NotificationTask := []
  decisions : List Decision := []

/-- `deliver` hands a message to a handler, again or for the first time; `scan` starts a
recovery run with products that its query finds. -/
inductive NotificationAction
  | deliver (message : IncomingMessage)
  | scan (products : List Int) (now : DateMs)
  | step (task : Nat) (input : StepInput)
  | crash (task : Nat)
  | product (productId : Int) (status : AuctionStatus) (endTime : Option DateMs)

def recoveryTask (scanned : Nat) : List ReceivedEvent → List NotificationTask
  | [] => []
  | event :: rest => [.recovery event .existing rest scanned]

/-- What is left of a handler after a step. -/
def consumerTask (message : IncomingMessage) (looked : Nat) :
    Progress ConsumerPhase String → List NotificationTask
  | .proceed phase => [.consumer message phase looked]
  | .returned | .threw _ => []

/-- What is left of a recovery run; it goes on with the next event, or ends with the first error. -/
def recoveryTasks (event : ReceivedEvent) (rest : List ReceivedEvent) (scanned : Nat) :
    Progress EnqueuePhase String → List NotificationTask
  | .proceed phase => [.recovery event phase rest scanned]
  | .returned => recoveryTask scanned rest
  | .threw _ => []

namespace NotificationWorld
variable (w : NotificationWorld)

/-- The tasks with those that take the place of one of them. -/
def replace (index : Nat) (tasks : List NotificationTask) : List NotificationTask :=
  w.tasks.take index ++ tasks ++ w.tasks.drop (index + 1)

/-- A step of a task. -/
def advance (index : Nat) (input : StepInput) : Option NotificationWorld :=
  match w.tasks[index]? with
  | some (.consumer message phase looked) =>
    (processKafkaMessage topics groupId retryLimit sha256 message w.db phase input).map
      fun (db, outcome) =>
        { db
          tasks := w.replace index (consumerTask message
            (if phase.looks input then w.decisions.length else looked) outcome)
          decisions := w.decisions ++ phase.decision message w.db input }
  | some (.recovery event phase rest scanned) =>
    let metadata := ⟨"scheduled_recovery", none, none⟩
    (enqueueNotificationEvent event metadata w.db phase input).map fun (db, outcome) =>
      { db
        tasks := w.replace index (recoveryTasks event rest scanned outcome)
        decisions := w.decisions ++ phase.decision event metadata w.db input }
  | none => none

/-- One step; `none` where the action is not possible. -/
def next : NotificationAction → Option NotificationWorld
  | .deliver message => some { w with tasks := w.tasks ++ [.consumer message .arrived 0] }
  | .scan products now =>
    if ∀ productId ∈ products, (w.db.products productId).any (·.Unmarked) then
      some { w with
        tasks := w.tasks ++ recoveryTask w.decisions.length (products.map fun productId =>
          recoveryEvent sha256 productId ((w.db.products productId).bind (·.endTime)) now) }
    else none
  | .step index input => w.advance topics groupId retryLimit sha256 index (input.within w.db)
  | .crash index => some { w with tasks := w.replace index [] }
  | .product productId status endTime =>
    some { w with db := w.db.updateProduct productId status endTime }

end NotificationWorld

end

end MiracleAuction.Messaging
